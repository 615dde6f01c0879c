import PfcpProxy.Lib.Print
import PfcpProxy.AddressText

/-!
# Printed socket addresses

The `Display` of the standard library's socket addresses, with which `create_snapshot` prints the
addresses of the backends. `SocketAddr::from_str` reads a printed address back, but for the flow
information of an IPv6 address, which is not printed.
-/

namespace PfcpProxy

open Text Text.Reader

/-! ### IPv4 -/

def displayIpv4Addr (ip : BitVec 32) : List Char :=
  Nat.toDigits 10 (ip.extractLsb' 24 8).toNat ++ '.' ::
    (Nat.toDigits 10 (ip.extractLsb' 16 8).toNat ++ '.' ::
      (Nat.toDigits 10 (ip.extractLsb' 8 8).toNat ++ '.' ::
        Nat.toDigits 10 (ip.extractLsb' 0 8).toNat))

/-! ### IPv6 -/

/-- `Ipv6Addr::segments`. -/
def segments (ip : BitVec 128) : List (BitVec 16) :=
  (List.range 8).map fun i => ip.extractLsb' (112 - 16 * i) 16

/-- `Ipv6Addr::to_ipv4_mapped`. -/
def toIpv4Mapped (ip : BitVec 128) : Option (BitVec 32) :=
  if ip.extractLsb' 32 96 = 0xffff then some (ip.extractLsb' 0 32) else none

/-- A run of zero segments. -/
structure Span where
  start : ℕ
  len : ℕ
  deriving DecidableEq, Repr

/-- The longest run of zero segments, the first one if there are several. The loop is at index `i`,
`current` being the run that ends there. -/
def zeroes (i : ℕ) (longest current : Span) : List (BitVec 16) → Span
  | [] => longest
  | segment :: rest =>
    if segment = 0 then
      let current : Span := ⟨if current.len = 0 then i else current.start, current.len + 1⟩
      zeroes (i + 1) (if longest.len < current.len then current else longest) current rest
    else zeroes (i + 1) longest ⟨0, 0⟩ rest

/-- The segments with colons before all of them, or before all but the first. -/
def fmtSubslice (index : ℕ) : List (BitVec 16) → List Char
  | [] => []
  | first :: tail =>
    (if index = 0 then [] else [':']) ++ Nat.toDigits 16 first.toNat ++ fmtSubslice (index + 1) tail

def displayIpv6Addr (ip : BitVec 128) : List Char :=
  match toIpv4Mapped ip with
  | some ipv4 => "::ffff:".toList ++ displayIpv4Addr ipv4
  | none =>
    let span := zeroes 0 ⟨0, 0⟩ ⟨0, 0⟩ (segments ip)
    if 1 < span.len then
      fmtSubslice 0 ((segments ip).take span.start) ++ "::".toList ++
        fmtSubslice 0 ((segments ip).drop (span.start + span.len))
    else fmtSubslice 0 (segments ip)

/-- The address as text. -/
def displaySocketAddr : SocketAddr → List Char
  | .v4 ip port => displayIpv4Addr ip ++ ':' :: Nat.toDigits 10 port.toNat
  | .v6 ip port _ scopeId =>
    '[' :: displayIpv6Addr ip ++ (if scopeId = 0 then [] else '%' :: Nat.toDigits 10 scopeId.toNat) ++
      ']' :: ':' :: Nat.toDigits 10 port.toNat

example : displaySocketAddr (.v6 0x20010db8000000000000000000000007 8805 0 0) =
    "[2001:db8::7]:8805".toList := by decide +kernel

/-! ### Zero runs -/

/-- The run lies in the list, and is zero there. -/
def Span.ZeroIn (span : Span) (groups : List (BitVec 16)) : Prop :=
  ∃ u v, groups = u ++ List.replicate span.len 0 ++ v ∧ u.length = span.start

lemma zeroIn_empty (groups : List (BitVec 16)) : (⟨0, 0⟩ : Span).ZeroIn groups :=
  ⟨[], groups, by simp, rfl⟩

lemma Span.ZeroIn.append {span : Span} {groups : List (BitVec 16)} (h : span.ZeroIn groups)
    (groups' : List (BitVec 16)) : span.ZeroIn (groups ++ groups') := by
  obtain ⟨u, v, rfl, hu⟩ := h
  exact ⟨u, v ++ groups', by simp, hu⟩

/-- The current run ends where the loop is. -/
def Span.ZeroAtEnd (span : Span) (groups : List (BitVec 16)) : Prop :=
  ∃ u, groups = u ++ List.replicate span.len 0 ∧ (0 < span.len → u.length = span.start)

lemma zeroIn_zeroes {done rest : List (BitVec 16)} {longest current : Span}
    (hlongest : longest.ZeroIn done) (hcurrent : current.ZeroAtEnd done) :
    (zeroes done.length longest current rest).ZeroIn (done ++ rest) := by
  induction rest generalizing done longest current with
  | nil => simpa [zeroes] using hlongest
  | cons segment rest ih =>
    have happend : done ++ segment :: rest = (done ++ [segment]) ++ rest := by simp
    have hlength : done.length + 1 = (done ++ [segment]).length := by simp
    unfold zeroes
    rw [happend, hlength]
    split
    · rename_i hzero
      subst hzero
      obtain ⟨u, hu, hstart⟩ := hcurrent
      have hdone : done ++ [0] = u ++ List.replicate (current.len + 1) 0 := by
        rw [hu, List.append_assoc, ← List.replicate_succ']
      have hu' : u.length = if current.len = 0 then done.length else current.start := by
        split
        · rename_i hlen
          simp [hu, hlen]
        · exact hstart (by omega)
      dsimp only
      apply ih
      · split
        · exact ⟨u, [], by rw [hdone, List.append_nil], hu'⟩
        · exact hlongest.append _
      · exact ⟨u, hdone, fun _ => hu'⟩
    · exact ih (hlongest.append _) ⟨done ++ [segment], by simp, by simp⟩

/-- What the longest run leaves out of the segments are zeros. -/
lemma take_zeroes_append (groups : List (BitVec 16)) :
    let span := zeroes 0 ⟨0, 0⟩ ⟨0, 0⟩ groups
    span.start + span.len ≤ groups.length ∧
    groups.take span.start ++ List.replicate span.len 0 ++ groups.drop (span.start + span.len) =
      groups := by
  intro span
  have hend : (⟨0, 0⟩ : Span).ZeroAtEnd [] := ⟨[], rfl, by simp⟩
  have hzero : span.ZeroIn groups := zeroIn_zeroes (zeroIn_empty []) hend
  obtain ⟨u, v, hgroups, hu⟩ := hzero
  have hlen : (u ++ List.replicate span.len 0).length = span.start + span.len := by
    rw [List.length_append, List.length_replicate, hu]
  constructor
  · rw [hgroups, List.length_append, hlen]
    omega
  · have htake : groups.take span.start = u := by
      rw [hgroups, List.append_assoc]
      exact List.take_left' hu
    have hdrop : groups.drop (span.start + span.len) = v := by
      rw [hgroups]
      exact List.drop_left' hlen
    rw [htake, hdrop]
    exact hgroups.symm

/-! ### Bits -/

lemma ofGroups_append_singleton (groups : List (BitVec 16)) (g : BitVec 16) :
    ofGroups (groups ++ [g]) = ofGroups groups <<< 16 ||| g.setWidth 128 := by
  simp [ofGroups]

lemma ofGroups_prefix (ip : BitVec 128) {k : ℕ} (hk : k ≤ 8) :
    ofGroups ((List.range k).map fun i => ip.extractLsb' (112 - 16 * i) 16) =
      ip >>> (128 - 16 * k) := by
  induction k with
  | zero =>
    ext i hi
    simp [ofGroups]
  | succ k ih =>
    rw [List.range_succ, List.map_append, List.map_singleton, ofGroups_append_singleton,
      ih (by omega)]
    ext i hi
    simp only [BitVec.getElem_or, BitVec.getElem_shiftLeft, BitVec.getElem_setWidth,
      BitVec.getLsbD_extractLsb', BitVec.getElem_ushiftRight]
    by_cases h16 : i < 16
    · have hindex : 112 - 16 * k + i = 128 - 16 * (k + 1) + i := by omega
      simp [h16, hindex]
    · have hindex : 128 - 16 * k + (i - 16) = 128 - 16 * (k + 1) + i := by omega
      simp [h16, hindex]

lemma ofGroups_segments (ip : BitVec 128) : ofGroups (segments ip) = ip := by
  rw [segments, ofGroups_prefix ip le_rfl]
  simp

lemma length_segments (ip : BitVec 128) : (segments ip).length = 8 := by simp [segments]

lemma octets_append (ip : BitVec 32) :
    ip.extractLsb' 24 8 ++ ip.extractLsb' 16 8 ++ ip.extractLsb' 8 8 ++ ip.extractLsb' 0 8 = ip := by
  ext i hi
  simp only [BitVec.getElem_append, BitVec.getElem_extractLsb']
  split_ifs <;> grind

/-! ### Reading back -/

lemma noDigitNext_cons {radix : ℕ} {c : Char} (hc : toDigit radix c = none) (s : List Char) :
    NoDigitNext radix (c :: s) := by
  intro c' hc'
  cases hc'
  exact hc

lemma readOctet_toDigits (b : BitVec 8) {s : List Char} (hs : NoDigitNext 10 s) :
    readOctet (Nat.toDigits 10 b.toNat ++ s) = some (b, s) := by
  have hb : b.toNat < 256 := b.isLt
  have hnumber : number 10 (some 3) false UInt8.size (Nat.toDigits 10 b.toNat ++ s) =
      some (b.toNat, s) :=
    number_toDigits (by omega) (by omega) false (by simp; omega) hb hs
  rw [readOctet, bind_eq hnumber, BitVec.ofNat_toNat, BitVec.setWidth_eq]
  rfl

lemma separated_zero {α : Type} (sep : Char) (p : Reader α) : separated sep 0 p = p := rfl

lemma separated_succ {α : Type} (sep : Char) (index : ℕ) (p : Reader α) (s : List Char) :
    separated sep (index + 1) p (sep :: s) = p s := bind_eq (givenChar_cons sep s)

lemma readIpv4Addr_display (ip : BitVec 32) {s : List Char} (hs : NoDigitNext 10 s) :
    readIpv4Addr (displayIpv4Addr ip ++ s) = some (ip, s) := by
  have hdot (s : List Char) : NoDigitNext 10 ('.' :: s) := noDigitNext_cons (by decide) s
  have ha (t : List Char) := readOctet_toDigits (ip.extractLsb' 24 8) (hdot t)
  have hb (t : List Char) := readOctet_toDigits (ip.extractLsb' 16 8) (hdot t)
  have hc (t : List Char) := readOctet_toDigits (ip.extractLsb' 8 8) (hdot t)
  have hd := readOctet_toDigits (ip.extractLsb' 0 8) hs
  simp only [displayIpv4Addr, List.append_assoc, List.cons_append]
  rw [readIpv4Addr, separated_zero, bind_eq (ha _),
    bind_eq ((separated_succ '.' 0 _ _).trans (hb _)),
    bind_eq ((separated_succ '.' 1 _ _).trans (hc _)),
    bind_eq ((separated_succ '.' 2 _ _).trans hd), octets_append]
  rfl

lemma readPort_display (port : BitVec 16) :
    readPort (':' :: Nat.toDigits 10 port.toNat) = some (port, []) := by
  have hport : port.toNat < 65536 := port.isLt
  have hnumber : number 10 none true UInt16.size (Nat.toDigits 10 port.toNat ++ []) =
      some (port.toNat, []) :=
    number_toDigits (by omega) (by omega) true (by simp) hport (by simp [NoDigitNext])
  rw [List.append_nil] at hnumber
  rw [readPort, bind_eq (givenChar_cons _ _), bind_eq hnumber, BitVec.ofNat_toNat,
    BitVec.setWidth_eq]
  rfl

lemma readSocketAddrV4_display (ip : BitVec 32) (port : BitVec 16) :
    readSocketAddrV4 (displayIpv4Addr ip ++ ':' :: Nat.toDigits 10 port.toNat) =
      some (.v4 ip port, []) := by
  have hip := readIpv4Addr_display ip (noDigitNext_cons (by decide)
    (Nat.toDigits 10 port.toNat) : NoDigitNext 10 (':' :: Nat.toDigits 10 port.toNat))
  rw [readSocketAddrV4, bind_eq hip, bind_eq (readPort_display port)]
  rfl

/-! ### Groups -/

lemma readOctet_eq_none {s : List Char} (hs : NoDigitNext 10 s) : readOctet s = none :=
  bind_eq_none (number_eq_none _ _ _ hs) _

lemma readIpv4Addr_eq_none {s : List Char} (hs : NoDigitNext 10 s) : readIpv4Addr s = none :=
  bind_eq_none (readOctet_eq_none hs) _

lemma readIpv4Addr_of_noDot {s : List Char} (hs : '.' ∉ s) : readIpv4Addr s = none := by
  cases ha : readOctet s with
  | none => exact bind_eq_none ha _
  | some x =>
    obtain ⟨a, s'⟩ := x
    have htakes : Takes (fun _ => True) readOctet :=
      (takes_number (fun _ _ => trivial) _ _ _).bind fun _ => takes_pure _
    obtain ⟨u, rfl, _⟩ := htakes s a s' ha
    have hhead : s'.head? ≠ some '.' := by
      intro h
      exact hs (List.mem_append_right _ (List.mem_of_mem_head? h))
    rw [readIpv4Addr, separated_zero, bind_eq ha]
    exact bind_eq_none (bind_eq_none (givenChar_eq_none hhead) _) _

/-- Neither a group nor an embedded IPv4 address follows. -/
structure GroupsEnd (s : List Char) : Prop where
  noGroup : ∀ i, separated ':' i (number 16 (some 4) true UInt16.size) s = none
  noIpv4 : ∀ i, separated ':' i readIpv4Addr s = none
  noDigit : NoDigitNext 16 s

lemma noDigitNext_ten {s : List Char} (hs : NoDigitNext 16 s) : NoDigitNext 10 s := by
  intro c hc
  have h16 := hs c hc
  unfold toDigit at h16 ⊢
  dsimp only at h16 ⊢
  split_ifs at h16 ⊢ <;> simp_all
  omega

/-- The groups end where neither a digit follows nor a colon and a digit. -/
lemma groupsEnd_of_noDigitNext {s : List Char} (hs : NoDigitNext 16 s)
    (hcolon : ∀ s', s = ':' :: s' → NoDigitNext 16 s') : GroupsEnd s where
  noGroup _ := separated_eq_none (number_eq_none _ _ _ hs) fun s' h =>
    number_eq_none _ _ _ (hcolon s' h)
  noIpv4 _ := separated_eq_none (readIpv4Addr_eq_none (noDigitNext_ten hs)) fun s' h =>
    readIpv4Addr_eq_none (noDigitNext_ten (hcolon s' h))
  noDigit := hs

lemma groupsEnd_doubleColon (s : List Char) : GroupsEnd (':' :: ':' :: s) := by
  apply groupsEnd_of_noDigitNext (noDigitNext_cons (by decide) _)
  rintro s' ⟨⟩
  exact noDigitNext_cons (by decide) s

lemma readGroups_ipv4 {slots i : ℕ} (hslots : 0 < slots) {s s' : List Char} {ip : BitVec 32}
    (hip : separated ':' i readIpv4Addr s = some (ip, s')) :
    readGroups (slots + 1) i s =
      some (([ip.extractLsb' 16 16, ip.extractLsb' 0 16], true), s') := by
  rw [readGroups, if_pos hslots]
  exact orElse_eq_left (bind_eq hip)

lemma readGroups_group {slots i : ℕ} {s s' s'' : List Char} {g : ℕ}
    {rest : List (BitVec 16) × Bool} (hip : separated ':' i readIpv4Addr s = none)
    (hg : separated ':' i (number 16 (some 4) true UInt16.size) s = some (g, s'))
    (hrest : readGroups slots (i + 1) s' = some (rest, s'')) :
    readGroups (slots + 1) i s = some ((BitVec.ofNat 16 g :: rest.1, rest.2), s'') := by
  rw [readGroups]
  split_ifs
  · exact (orElse_eq_right (bind_eq_none hip _)).trans
      (orElse_eq_left ((bind_eq hg).trans (bind_eq hrest)))
  · exact orElse_eq_left ((bind_eq hg).trans (bind_eq hrest))

lemma readGroups_of_end (slots i : ℕ) {s : List Char} (hs : GroupsEnd s) :
    readGroups slots i s = some (([], false), s) := by
  cases slots with
  | zero => rfl
  | succ slots =>
    rw [readGroups]
    split_ifs
    · exact (orElse_eq_right (bind_eq_none (hs.noIpv4 i) _)).trans
        (orElse_eq_right (bind_eq_none (hs.noGroup i) _))
    · exact orElse_eq_right (bind_eq_none (hs.noGroup i) _)

lemma number_group (g : BitVec 16) {s : List Char} (hs : NoDigitNext 16 s) :
    number 16 (some 4) true UInt16.size (Nat.toDigits 16 g.toNat ++ s) = some (g.toNat, s) := by
  have hg : g.toNat < 65536 := g.isLt
  exact number_toDigits (by omega) (by omega) true (by simp; omega) hg hs

lemma noDigitNext_fmtSubslice {i : ℕ} (hi : i ≠ 0) (groups : List (BitVec 16)) {s : List Char}
    (hs : NoDigitNext 16 s) : NoDigitNext 16 (fmtSubslice i groups ++ s) := by
  cases groups with
  | nil => exact hs
  | cons g groups =>
    rw [fmtSubslice, if_neg hi]
    exact noDigitNext_cons (by decide) _

lemma separated_readIpv4Addr_of_noDot (i : ℕ) {s : List Char} (hs : '.' ∉ s) :
    separated ':' i readIpv4Addr s = none :=
  separated_eq_none (readIpv4Addr_of_noDot hs) fun _ h =>
    readIpv4Addr_of_noDot fun h' => hs (h ▸ List.mem_cons_of_mem _ h')

lemma dot_not_mem_toDigits {radix : ℕ} (h1 : 1 < radix) (n : ℕ) : '.' ∉ Nat.toDigits radix n := by
  induction n using Nat.strong_induction_on with
  | h n ih =>
    rw [Nat.toDigits_eq_if h1]
    split
    · simp
    · simp [ih (n / radix) (Nat.div_lt_self (by omega) h1)]

lemma dot_not_mem_fmtSubslice (i : ℕ) (groups : List (BitVec 16)) : '.' ∉ fmtSubslice i groups := by
  induction groups generalizing i with
  | nil => simp [fmtSubslice]
  | cons g groups ih =>
    rw [fmtSubslice, List.mem_append, List.mem_append, not_or, not_or]
    refine ⟨⟨?_, dot_not_mem_toDigits (by omega) _⟩, ih _⟩
    split <;> simp

/-- Printed groups are read back, up to where they end. -/
lemma readGroups_fmtSubslice {slots : ℕ} (i : ℕ) {groups : List (BitVec 16)}
    (hlength : groups.length ≤ slots) {s : List Char} (hend : GroupsEnd s) (hdot : '.' ∉ s) :
    readGroups slots i (fmtSubslice i groups ++ s) = some ((groups, false), s) := by
  induction groups generalizing i slots with
  | nil => exact readGroups_of_end slots i hend
  | cons g groups ih =>
    cases slots with
    | zero => simp at hlength
    | succ slots =>
      have hrest : NoDigitNext 16 (fmtSubslice (i + 1) groups ++ s) :=
        noDigitNext_fmtSubslice (by omega) groups hend.noDigit
      have hnodot : '.' ∉ fmtSubslice i (g :: groups) ++ s := by
        rw [List.mem_append, not_or]
        exact ⟨dot_not_mem_fmtSubslice i _, hdot⟩
      have hnumber := number_group g hrest
      have hg : separated ':' i (number 16 (some 4) true UInt16.size)
          (fmtSubslice i (g :: groups) ++ s) =
          some (g.toNat, fmtSubslice (i + 1) groups ++ s) := by
        cases i with
        | zero =>
          rw [separated_zero]
          simpa [fmtSubslice] using hnumber
        | succ i =>
          simp only [fmtSubslice, List.append_assoc]
          exact (separated_succ ':' i _ _).trans hnumber
      rw [readGroups_group (separated_readIpv4Addr_of_noDot i hnodot) hg
        (ih (i + 1) (by simpa using hlength)), BitVec.ofNat_toNat, BitVec.setWidth_eq]

/-! ### IPv6 addresses -/

lemma readIpv6Addr_full {s s' : List Char} {groups : List (BitVec 16)} {ipv4 : Bool}
    (hhead : readGroups 8 0 s = some ((groups, ipv4), s')) (hlength : groups.length = 8) :
    readIpv6Addr s = some (ofGroups groups, s') := by
  rw [readIpv6Addr, bind_eq hhead, if_pos hlength]
  rfl

lemma readIpv6Addr_compressed {s s' s'' : List Char} {head tail : List (BitVec 16)} {ipv4 : Bool}
    (hhead : readGroups 8 0 s = some ((head, false), ':' :: ':' :: s')) (hlength : head.length < 8)
    (htail : readGroups (8 - (head.length + 1)) 0 s' = some ((tail, ipv4), s'')) :
    readIpv6Addr s =
      some (ofGroups (head ++ List.replicate (8 - head.length - tail.length) 0 ++ tail), s'') := by
  rw [readIpv6Addr, bind_eq hhead, if_neg (by simpa using hlength.ne), if_neg (by simp),
    bind_eq (givenChar_cons _ _), bind_eq (givenChar_cons _ _), bind_eq htail]
  rfl

/-- What may stand behind the address. -/
structure AddressEnd (s : List Char) : Prop where
  groupsEnd : GroupsEnd s
  noDot : '.' ∉ s

lemma AddressEnd.noDigit {s : List Char} (h : AddressEnd s) : NoDigitNext 16 s :=
  h.groupsEnd.noDigit

lemma readIpv6Addr_fmtSubslice {head tail : List (BitVec 16)}
    (hlength : head.length + tail.length < 8) {s : List Char} (hs : AddressEnd s) :
    readIpv6Addr (fmtSubslice 0 head ++ "::".toList ++ fmtSubslice 0 tail ++ s) =
      some (ofGroups (head ++ List.replicate (8 - head.length - tail.length) 0 ++ tail), s) := by
  have hnodot : '.' ∉ ':' :: ':' :: (fmtSubslice 0 tail ++ s) := by
    simp [dot_not_mem_fmtSubslice, hs.noDot]
  have hhead := readGroups_fmtSubslice 0 (by omega : head.length ≤ 8)
    (groupsEnd_doubleColon (fmtSubslice 0 tail ++ s)) hnodot
  have htail := readGroups_fmtSubslice 0 (by omega : tail.length ≤ 8 - (head.length + 1))
    hs.groupsEnd hs.noDot
  have htext : fmtSubslice 0 head ++ "::".toList ++ fmtSubslice 0 tail ++ s =
      fmtSubslice 0 head ++ ':' :: ':' :: (fmtSubslice 0 tail ++ s) := by simp
  rw [htext]
  exact readIpv6Addr_compressed hhead (by omega) htail

lemma readIpv6Addr_mapped (ipv4 : BitVec 32) {s : List Char} (hs : AddressEnd s) :
    readIpv6Addr ("::ffff:".toList ++ displayIpv4Addr ipv4 ++ s) =
      some (ofGroups (List.replicate 5 0 ++ [0xffff, ipv4.extractLsb' 16 16,
        ipv4.extractLsb' 0 16]), s) := by
  have htext : "::ffff:".toList ++ displayIpv4Addr ipv4 ++ s =
      ':' :: ':' :: (Nat.toDigits 16 0xffff ++ ':' :: (displayIpv4Addr ipv4 ++ s)) := rfl
  have hffff : Nat.toDigits 16 0xffff = 'f' :: "fff".toList := rfl
  have hip : separated ':' 0 readIpv4Addr
      (Nat.toDigits 16 0xffff ++ ':' :: (displayIpv4Addr ipv4 ++ s)) = none := by
    rw [hffff]
    exact readIpv4Addr_eq_none (noDigitNext_cons (by decide) _)
  have hgroup : separated ':' 0 (number 16 (some 4) true UInt16.size)
      (Nat.toDigits 16 0xffff ++ ':' :: (displayIpv4Addr ipv4 ++ s)) =
      some (0xffff, ':' :: (displayIpv4Addr ipv4 ++ s)) := by
    have hend : NoDigitNext 16 (':' :: (displayIpv4Addr ipv4 ++ s)) :=
      noDigitNext_cons (by decide) _
    exact number_group 0xffff hend
  have hipv4 : separated ':' 1 readIpv4Addr (':' :: (displayIpv4Addr ipv4 ++ s)) =
      some (ipv4, s) :=
    (separated_succ ':' 0 _ _).trans (readIpv4Addr_display ipv4 (noDigitNext_ten hs.noDigit))
  have hslots : 0 < 5 := by omega
  have htail := readGroups_group hip hgroup (readGroups_ipv4 hslots hipv4)
  rw [htext, readIpv6Addr_compressed (readGroups_of_end 8 0 (groupsEnd_doubleColon _)) (by simp)
    htail]
  rfl

lemma groups_of_toIpv4Mapped {ip : BitVec 128} {ipv4 : BitVec 32}
    (h : toIpv4Mapped ip = some ipv4) :
    ofGroups (List.replicate 5 0 ++ [0xffff, ipv4.extractLsb' 16 16, ipv4.extractLsb' 0 16]) =
      ip := by
  simp only [toIpv4Mapped, Option.ite_none_right_eq_some, Option.some.injEq] at h
  obtain ⟨hhigh, rfl⟩ := h
  -- The high segments, cut out of the 96 bits that are compared with the constant.
  have hgroup (k : ℕ) (hk : k + 16 ≤ 96) :
      ip.extractLsb' (32 + k) 16 = (0xffff : BitVec 96).extractLsb' k 16 := by
    rw [← hhigh]
    ext i hi
    simp [Nat.add_assoc]
    omega
  have hsegments : segments ip = List.replicate 5 0 ++ [0xffff,
      ip.extractLsb' (0 + 16) 16, ip.extractLsb' (0 + 0) 16] := by
    have h0 := hgroup 0 (by omega)
    have h1 := hgroup 16 (by omega)
    have h2 := hgroup 32 (by omega)
    have h3 := hgroup 48 (by omega)
    have h4 := hgroup 64 (by omega)
    have h5 := hgroup 80 (by omega)
    show [ip.extractLsb' (32 + 80) 16, ip.extractLsb' (32 + 64) 16, ip.extractLsb' (32 + 48) 16,
      ip.extractLsb' (32 + 32) 16, ip.extractLsb' (32 + 16) 16, ip.extractLsb' (32 + 0) 16,
      ip.extractLsb' 16 16, ip.extractLsb' 0 16] = _
    rw [h0, h1, h2, h3, h4, h5]
    rfl
  rw [BitVec.extractLsb'_extractLsb'_of_le (by omega),
    BitVec.extractLsb'_extractLsb'_of_le (by omega), ← hsegments, ofGroups_segments]

lemma readIpv6Addr_display (ip : BitVec 128) {s : List Char} (hs : AddressEnd s) :
    readIpv6Addr (displayIpv6Addr ip ++ s) = some (ip, s) := by
  unfold displayIpv6Addr
  split
  · rename_i ipv4 hmapped
    rw [readIpv6Addr_mapped ipv4 hs, groups_of_toIpv4Mapped hmapped]
  obtain ⟨hle, hsplit⟩ := take_zeroes_append (segments ip)
  rw [length_segments] at hle
  dsimp only
  split
  · rename_i hlen
    generalize zeroes 0 ⟨0, 0⟩ ⟨0, 0⟩ (segments ip) = span at *
    have hhead : ((segments ip).take span.start).length = span.start := by
      rw [List.length_take, length_segments]
      omega
    have htail : ((segments ip).drop (span.start + span.len)).length =
        8 - (span.start + span.len) := by rw [List.length_drop, length_segments]
    have hreplicate : 8 - span.start - (8 - (span.start + span.len)) = span.len := by omega
    rw [readIpv6Addr_fmtSubslice (by omega) hs, hhead, htail, hreplicate, hsplit, ofGroups_segments]
  · have hhead := readGroups_fmtSubslice 0 (length_segments ip).le hs.groupsEnd hs.noDot
    rw [readIpv6Addr_full hhead (length_segments ip), ofGroups_segments]

/-! ### Socket addresses -/

/-- The address without what is not printed. -/
def SocketAddr.printed : SocketAddr → SocketAddr
  | .v4 ip port => .v4 ip port
  | .v6 ip port _ scopeId => .v6 ip port 0 scopeId

lemma addressEnd_port (port : BitVec 16) :
    AddressEnd (']' :: ':' :: Nat.toDigits 10 port.toNat) where
  groupsEnd := groupsEnd_of_noDigitNext (noDigitNext_cons (by decide) _) (by simp)
  noDot := by simp [dot_not_mem_toDigits]

lemma addressEnd_scopeId (scopeId : BitVec 32) (port : BitVec 16) :
    AddressEnd ('%' :: (Nat.toDigits 10 scopeId.toNat ++ ']' :: ':' ::
      Nat.toDigits 10 port.toNat)) where
  groupsEnd := groupsEnd_of_noDigitNext (noDigitNext_cons (by decide) _) (by simp)
  noDot := by simp [dot_not_mem_toDigits]

lemma readScopeId_display (scopeId : BitVec 32) {s : List Char} (hs : NoDigitNext 10 s) :
    readScopeId ('%' :: (Nat.toDigits 10 scopeId.toNat ++ s)) = some (scopeId, s) := by
  have hbound : scopeId.toNat < 4294967296 := scopeId.isLt
  have hnumber : number 10 none true UInt32.size (Nat.toDigits 10 scopeId.toNat ++ s) =
      some (scopeId.toNat, s) :=
    number_toDigits (by omega) (by omega) true (by simp) hbound hs
  rw [readScopeId, bind_eq (givenChar_cons _ _), bind_eq hnumber, BitVec.ofNat_toNat,
    BitVec.setWidth_eq]
  rfl

lemma readSocketAddrV6_display (ip : BitVec 128) (port : BitVec 16) (flowinfo scopeId : BitVec 32) :
    readSocketAddrV6 (displaySocketAddr (.v6 ip port flowinfo scopeId)) =
      some (.v6 ip port 0 scopeId, []) := by
  have hport := addressEnd_port port
  have hbracket : NoDigitNext 10 (']' :: ':' :: Nat.toDigits 10 port.toNat) :=
    noDigitNext_ten hport.noDigit
  simp only [displaySocketAddr, List.cons_append, List.append_assoc]
  rw [readSocketAddrV6, bind_eq (givenChar_cons _ _)]
  split_ifs with hscope
  · have hnone : readScopeId (']' :: ':' :: Nat.toDigits 10 port.toNat) = none :=
      bind_eq_none (givenChar_eq_none (by simp)) _
    rw [List.nil_append, bind_eq (readIpv6Addr_display ip hport),
      bind_eq (orElse_eq_right hnone), bind_eq (givenChar_cons _ _), bind_eq (readPort_display port),
      hscope]
    rfl
  · rw [List.cons_append, bind_eq (readIpv6Addr_display ip (addressEnd_scopeId scopeId port)),
      bind_eq (orElse_eq_left (readScopeId_display scopeId hbracket)),
      bind_eq (givenChar_cons _ _), bind_eq (readPort_display port)]
    rfl

/-- An address that was read has no flow information. -/
lemma printed_of_parse {s : List Char} {a : SocketAddr} (h : parseSocketAddr s = some a) :
    a.printed = a := by
  unfold parseSocketAddr readAll at h
  split at h
  · rename_i b hb
    cases h
    rcases Option.or_eq_some_iff.mp hb with hb | ⟨_, hb⟩
    · obtain ⟨ip, s₁, _, hb⟩ := bind_eq_some hb
      obtain ⟨port, s₂, _, hb⟩ := bind_eq_some hb
      cases hb
      rfl
    · obtain ⟨_, s₁, _, hb⟩ := bind_eq_some hb
      obtain ⟨ip, s₂, _, hb⟩ := bind_eq_some hb
      obtain ⟨scopeId, s₃, _, hb⟩ := bind_eq_some hb
      obtain ⟨_, s₄, _, hb⟩ := bind_eq_some hb
      obtain ⟨port, s₅, _, hb⟩ := bind_eq_some hb
      cases hb
      rfl
  · cases h

/-- A printed address is read back, without its flow information. -/
theorem parseSocketAddr_display (a : SocketAddr) :
    parseSocketAddr (displaySocketAddr a) = some a.printed := by
  cases a with
  | v4 ip port =>
    have hread : readSocketAddr (displaySocketAddr (.v4 ip port)) = some (.v4 ip port, []) :=
      orElse_eq_left (readSocketAddrV4_display ip port)
    rw [parseSocketAddr, readAll, hread]
    rfl
  | v6 ip port flowinfo scopeId =>
    have hnone : readSocketAddrV4 (displaySocketAddr (.v6 ip port flowinfo scopeId)) = none :=
      bind_eq_none (readIpv4Addr_eq_none (noDigitNext_cons (by decide) _)) _
    have hread := (orElse_eq_right hnone).trans (readSocketAddrV6_display ip port flowinfo scopeId)
    rw [parseSocketAddr, readAll, readSocketAddr, hread]
    rfl

end PfcpProxy
