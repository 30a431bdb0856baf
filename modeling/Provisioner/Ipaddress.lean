import Provisioner.Values
import Mathlib.Data.Nat.Digits

/-!
# IPv4 addresses (`ipaddress`, Python 3.6)

The parts of the standard `ipaddress` module that `Validation.check_ip4` runs:
`IPv4Address(value)`, which parses text with `_ip_int_from_string` and `_parse_octet`, and
`str(IPv4Address)`. This is the Python 3.6 parser, which reads an octet with leading zeros such
as `"01"` as decimal, so text can parse to an address without being its rendering.

The main result is the round trip `ipIntFromString_toChars`: every rendering parses back to its
address.
-/

namespace Provisioner

structure IPv4Address where
  ip : Nat
  ip_lt : ip < 4294967296
  deriving DecidableEq

inductive OctetError where
  | empty
  | notDecimal (octet : List Char)
  | tooLong (octet : List Char)
  | ambiguous (octet : List Char)
  | tooLarge (n : Nat)
  deriving DecidableEq

/-- `AddressValueError`, with what its text names. -/
inductive AddressValueError where
  | empty
  | slash (address : String)
  | octetCount (ipStr : List Char)
  | octet (e : OctetError) (ipStr : List Char)
  | negative (n : Int)
  | tooLarge (n : Int)
  deriving DecidableEq

/-- `int(octet_str, 10)` for a string of decimal digits. -/
def decimalValue (octet : List Char) : Nat :=
  octet.foldl (fun n c => 10 * n + (c.toNat - 48)) 0

/-- `IPv4Address._parse_octet`. -/
def parseOctet (octet : List Char) : Except OctetError (Fin 256) :=
  if octet = [] then .error .empty
  else if !octet.all Char.isDigit then .error (.notDecimal octet)
  else if 3 < octet.length then .error (.tooLong octet)
  else if 7 < decimalValue octet ∧ octet.head? = some '0' then .error (.ambiguous octet)
  else if h : decimalValue octet < 256 then .ok ⟨decimalValue octet, h⟩
  else .error (.tooLarge (decimalValue octet))

/-- `int.from_bytes(octets, 'big')` for four octets. -/
def IPv4Address.ofBytes (b₁ b₂ b₃ b₄ : Fin 256) : IPv4Address :=
  ⟨((b₁.val * 256 + b₂.val) * 256 + b₃.val) * 256 + b₄.val, by omega⟩

/-- `IPv4Address._ip_int_from_string`: four dot-separated octets, parsed in order. -/
def ipIntFromString (ipStr : List Char) : Except AddressValueError IPv4Address :=
  if ipStr = [] then .error .empty
  else
    match splitOn '.' ipStr with
    | [o₁, o₂, o₃, o₄] =>
        match parseOctet o₁, parseOctet o₂, parseOctet o₃, parseOctet o₄ with
        | .ok b₁, .ok b₂, .ok b₃, .ok b₄ => .ok (IPv4Address.ofBytes b₁ b₂ b₃ b₄)
        | .error e, _, _, _ | .ok _, .error e, _, _ | .ok _, .ok _, .error e, _
        | .ok _, .ok _, .ok _, .error e => .error (.octet e ipStr)
    | _ => .error (.octetCount ipStr)

/-- `ip_int.to_bytes(4, 'big')`. -/
def IPv4Address.toBytes (a : IPv4Address) : List Nat :=
  [a.ip / 16777216 % 256, a.ip / 65536 % 256, a.ip / 256 % 256, a.ip % 256]

/-- `str(IPv4Address)`: `'.'.join(map(str, ip_int.to_bytes(4, 'big')))`. -/
def IPv4Address.toChars (a : IPv4Address) : List Char :=
  joinWith '.' (a.toBytes.map (Nat.toDigits 10))

def IPv4Address.toString (a : IPv4Address) : String := ⟨a.toChars⟩

/-- `IPv4Address(address)`: integers (and booleans) are taken as the address itself, anything
else is read through `str()`. -/
def IPv4Address.new (token : Special → String) : PyValue → Except AddressValueError IPv4Address
  | .int n =>
      if n < 0 then .error (.negative n)
      else if h : n.toNat < 4294967296 then .ok ⟨n.toNat, h⟩
      else .error (.tooLarge n)
  | .bool b => .ok ⟨if b then 1 else 0, by split <;> omega⟩
  | v =>
      let s := v.toStr token
      if '/' ∈ s.toList then .error (.slash s) else ipIntFromString s.toList

/-! ## Rendering octets -/

private theorem toDigitsCore_step (f n : Nat) (ds : List Char) (h : n / 10 ≠ 0) :
    Nat.toDigitsCore 10 (f + 1) n ds =
      Nat.toDigitsCore 10 f (n / 10) (Nat.digitChar (n % 10) :: ds) := by
  rw [Nat.toDigitsCore, if_neg h]

private theorem toDigitsCore_last (f n : Nat) (ds : List Char) (h : n < 10) :
    Nat.toDigitsCore 10 (f + 1) n ds = Nat.digitChar n :: ds := by
  rw [Nat.toDigitsCore, if_pos (Nat.div_eq_of_lt h), Nat.mod_eq_of_lt h]

theorem toDigits_octet {n : Nat} (h : n < 1000) : Nat.toDigits 10 n =
    if n < 10 then [Nat.digitChar n]
    else if n < 100 then [Nat.digitChar (n / 10), Nat.digitChar (n % 10)]
    else [Nat.digitChar (n / 100), Nat.digitChar (n / 10 % 10), Nat.digitChar (n % 10)] := by
  unfold Nat.toDigits
  split_ifs with h₁ h₂
  · exact toDigitsCore_last _ _ _ h₁
  · obtain ⟨m, rfl⟩ : ∃ m, n = m + 1 := ⟨n - 1, by omega⟩
    rw [toDigitsCore_step _ _ _ (by omega)]
    obtain ⟨k, hk⟩ : ∃ k, m = k + 1 := ⟨m - 1, by omega⟩
    rw [hk, toDigitsCore_last _ _ _ (by omega)]
  · obtain ⟨m, rfl⟩ : ∃ m, n = m + 1 := ⟨n - 1, by omega⟩
    rw [toDigitsCore_step _ _ _ (by omega)]
    obtain ⟨k, hk⟩ : ∃ k, m = k + 1 := ⟨m - 1, by omega⟩
    rw [hk, toDigitsCore_step _ _ _ (by omega)]
    obtain ⟨j, hj⟩ : ∃ j, k = j + 1 := ⟨k - 1, by omega⟩
    rw [hj, toDigitsCore_last _ _ _ (by omega), Nat.div_div_eq_div_mul]

theorem digitChar_isDigit {d : Nat} (h : d < 10) : (Nat.digitChar d).isDigit = true := by
  interval_cases d <;> rfl

theorem digitChar_toNat {d : Nat} (h : d < 10) : (Nat.digitChar d).toNat = 48 + d := by
  interval_cases d <;> rfl

theorem digitChar_eq_zero {d : Nat} (h : d < 10) (h0 : Nat.digitChar d = '0') : d = 0 := by
  interval_cases d <;> simp_all [Nat.digitChar]

theorem parseOctet_toDigits {n : Nat} (hn : n < 256) :
    parseOctet (Nat.toDigits 10 n) = .ok ⟨n, hn⟩ := by
  rw [toDigits_octet (by omega)]
  have hd : ∀ {d}, d < 10 → (Nat.digitChar d).toNat - 48 = d := fun h => by
    rw [digitChar_toNat h]; omega
  split_ifs with h₁ h₂
  · have hlead : 7 < n → Nat.digitChar n ≠ '0' := fun h7 h0 => by
      have := digitChar_eq_zero h₁ h0
      omega
    simpa [parseOctet, decimalValue, digitChar_isDigit h₁, hd h₁, hn] using hlead
  · have hlead : Nat.digitChar (n / 10) ≠ '0' :=
      fun h0 => absurd (digitChar_eq_zero (by omega) h0) (by omega)
    simp [parseOctet, decimalValue, digitChar_isDigit, hd, hlead, hn, Nat.div_add_mod,
      show n / 10 < 10 by omega, show n % 10 < 10 by omega]
  · have hlead : Nat.digitChar (n / 100) ≠ '0' :=
      fun h0 => absurd (digitChar_eq_zero (by omega) h0) (by omega)
    have hval : 10 * (10 * (n / 100) + n / 10 % 10) + n % 10 = n := by omega
    simp [parseOctet, decimalValue, digitChar_isDigit, hd, hlead, hn, hval,
      show n / 100 < 10 by omega, show n / 10 % 10 < 10 by omega, show n % 10 < 10 by omega]
theorem mem_toDigits_octet {n : Nat} {c : Char} (h : n < 1000) (hc : c ∈ Nat.toDigits 10 n) :
    ∃ d < 10, c = Nat.digitChar d := by
  rw [toDigits_octet h] at hc
  split_ifs at hc with h₁ h₂
  · exact ⟨n, h₁, List.mem_singleton.mp hc⟩
  · rcases List.mem_pair.mp hc with rfl | rfl
    · exact ⟨n / 10, by omega, rfl⟩
    · exact ⟨n % 10, by omega, rfl⟩
  · simp only [List.mem_cons, List.not_mem_nil, or_false] at hc
    rcases hc with rfl | rfl | rfl
    · exact ⟨n / 100, by omega, rfl⟩
    · exact ⟨n / 10 % 10, by omega, rfl⟩
    · exact ⟨n % 10, by omega, rfl⟩

theorem digitChar_ne_dot {d : Nat} (h : d < 10) : Nat.digitChar d ≠ '.' := by
  interval_cases d <;> decide

theorem digitChar_ne_slash {d : Nat} (h : d < 10) : Nat.digitChar d ≠ '/' := by
  interval_cases d <;> decide

theorem dot_not_mem_toDigits {n : Nat} (h : n < 1000) : '.' ∉ Nat.toDigits 10 n := fun hc => by
  obtain ⟨d, hd, he⟩ := mem_toDigits_octet h hc
  exact digitChar_ne_dot hd he.symm

theorem mem_joinWith {sep c : Char} {parts : List (List Char)} (h : c ∈ joinWith sep parts) :
    c = sep ∨ ∃ p ∈ parts, c ∈ p := by
  induction parts with
  | nil => cases h
  | cons p ps ih =>
      cases ps with
      | nil => exact .inr ⟨p, List.mem_singleton_self p, h⟩
      | cons q qs =>
          rcases List.mem_append.mp h with h | h
          · exact .inr ⟨p, List.mem_cons_self p _, h⟩
          · rcases List.mem_cons.mp h with rfl | h
            · exact .inl rfl
            · exact (ih h).imp id fun ⟨r, hr, hc⟩ => ⟨r, List.mem_cons_of_mem p hr, hc⟩

theorem slash_not_mem_toChars (a : IPv4Address) : '/' ∉ a.toChars := fun h => by
  rcases mem_joinWith h with h | ⟨p, hp, hc⟩
  · cases h
  · obtain ⟨n, hn, rfl⟩ := List.mem_map.mp hp
    have hn : n < 1000 := by
      simp only [IPv4Address.toBytes, List.mem_cons, List.not_mem_nil, or_false] at hn
      omega
    obtain ⟨d, hd, he⟩ := mem_toDigits_octet hn hc
    exact digitChar_ne_slash hd he.symm

/-! ## The round trip -/

theorem ipIntFromString_toChars (a : IPv4Address) : ipIntFromString a.toChars = .ok a := by
  obtain ⟨ip, hip⟩ := a
  have hoct : ∀ n, n % 256 < 256 := fun n => Nat.mod_lt n (by norm_num)
  have hdot : ∀ n, '.' ∉ Nat.toDigits 10 (n % 256) :=
    fun n => dot_not_mem_toDigits (by have := hoct n; omega)
  have hsplit := @splitOn_joinWith '.'
    ([ip / 16777216 % 256, ip / 65536 % 256, ip / 256 % 256, ip % 256].map (Nat.toDigits 10))
    (by simp) (by simp [hdot])
  unfold ipIntFromString
  rw [if_neg (by simp [IPv4Address.toChars, joinWith])]
  rw [IPv4Address.toChars, IPv4Address.toBytes, hsplit]
  simp only [List.map_cons, List.map_nil, parseOctet_toDigits (hoct _), IPv4Address.ofBytes,
    IPv4Address.mk.injEq, Except.ok.injEq]
  omega

end Provisioner
