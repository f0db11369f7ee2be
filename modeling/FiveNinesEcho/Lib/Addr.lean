import Mathlib.Algebra.Ring.Nat
import Mathlib.Data.List.Basic

/-!
# Socket addresses and their text

IP addresses and socket addresses with the `Display` of the Rust standard library. An IPv6 address is
eight hexadecimal groups, of which the first longest run of two or more zero groups is left out,
with the embedded form for an IPv4-mapped address; a socket address puts an IPv6 address, and its
scope if there is one, in square brackets.
-/

namespace FiveNinesEcho.Lib

structure Ipv4Addr where
  a : UInt8
  b : UInt8
  c : UInt8
  d : UInt8
  deriving Repr, DecidableEq

/-- The eight segments, the first one first. -/
structure Ipv6Addr where
  segments : List UInt16
  eight : segments.length = 8
  deriving Repr, DecidableEq

inductive IpAddr where
  | v4 (ip : Ipv4Addr)
  | v6 (ip : Ipv6Addr)
  deriving Repr, DecidableEq

inductive SocketAddr where
  | v4 (ip : Ipv4Addr) (port : UInt16)
  | v6 (ip : Ipv6Addr) (port : UInt16) (flowinfo scopeId : UInt32)
  deriving Repr, DecidableEq

def SocketAddr.ip : SocketAddr → IpAddr
  | .v4 ip _ => .v4 ip
  | .v6 ip _ _ _ => .v6 ip

def SocketAddr.port : SocketAddr → UInt16
  | .v4 _ port => port
  | .v6 _ port _ _ => port

def SocketAddr.isIpv4 : SocketAddr → Bool
  | .v4 .. => true
  | .v6 .. => false

/-! ### Text -/

def hexText (n : UInt16) : String := String.ofList (Nat.toDigits 16 n.toNat)

def Ipv4Addr.text (ip : Ipv4Addr) : String :=
  toString ip.a.toNat ++ "." ++ toString ip.b.toNat ++ "." ++ toString ip.c.toNat ++ "." ++
    toString ip.d.toNat

/-- `to_ipv4_mapped`: `::ffff:a.b.c.d`. -/
def Ipv6Addr.toIpv4Mapped (ip : Ipv6Addr) : Option Ipv4Addr :=
  match ip.segments with
  | [0, 0, 0, 0, 0, 0xffff, hi, lo] =>
    some ⟨(hi >>> 8).toUInt8, hi.toUInt8, (lo >>> 8).toUInt8, lo.toUInt8⟩
  | _ => none

structure Span where
  start : ℕ
  len : ℕ
  deriving Repr, DecidableEq

/-- The loop over the segments: the run of zeros it is in, and the longest one so far. -/
def zeroSpan : List UInt16 → ℕ → Span → Span → Span
  | [], _, _, longest => longest
  | s :: ss, i, current, longest =>
    if s = 0 then
      let current := ⟨if current.len = 0 then i else current.start, current.len + 1⟩
      zeroSpan ss (i + 1) current (if longest.len < current.len then current else longest)
    else zeroSpan ss (i + 1) ⟨0, 0⟩ longest

def fmtSubslice (chunk : List UInt16) : String := String.intercalate ":" (chunk.map hexText)

def Ipv6Addr.text (ip : Ipv6Addr) : String :=
  match ip.toIpv4Mapped with
  | some v4 => "::ffff:" ++ v4.text
  | none =>
    let zeroes := zeroSpan ip.segments 0 ⟨0, 0⟩ ⟨0, 0⟩
    if 1 < zeroes.len then
      fmtSubslice (ip.segments.take zeroes.start) ++ "::" ++
        fmtSubslice (ip.segments.drop (zeroes.start + zeroes.len))
    else fmtSubslice ip.segments

def IpAddr.text : IpAddr → String
  | .v4 ip => ip.text
  | .v6 ip => ip.text

def SocketAddr.text : SocketAddr → String
  | .v4 ip port => ip.text ++ ":" ++ toString port.toNat
  | .v6 ip port _ scopeId =>
    if scopeId = 0 then "[" ++ ip.text ++ "]:" ++ toString port.toNat
    else "[" ++ ip.text ++ "%" ++ toString scopeId.toNat ++ "]:" ++ toString port.toNat

/-! ### How long a text can be -/

theorem utf8Size_digitChar (n : ℕ) : n.digitChar.utf8Size = 1 := by
  by_cases hn : n < 16
  · have hsmall : ∀ n < 16, n.digitChar.utf8Size = 1 := by decide
    exact hsmall n hn
  · rw [Nat.digitChar_eq_star.mpr (Nat.le_of_not_lt hn)]
    rfl

theorem utf8ByteSize_toDigits (b n : ℕ) (hb : 1 < b) :
    (String.ofList (Nat.toDigits b n)).utf8ByteSize = (Nat.toDigits b n).length := by
  induction n using Nat.strongRecOn with
  | _ n ih =>
    by_cases hn : n < b
    · rw [Nat.toDigits_of_lt_base hn]
      show (String.singleton n.digitChar).utf8ByteSize = 1
      rw [String.utf8ByteSize_singleton, utf8Size_digitChar]
    · have hlt : n / b < n := Nat.div_lt_self (by omega) hb
      rw [Nat.toDigits_of_base_le hb (by omega), String.ofList_append, String.utf8ByteSize_append,
        List.length_append, ih (n / b) hlt]
      show _ + (String.singleton (n % b).digitChar).utf8ByteSize = _
      rw [String.utf8ByteSize_singleton, utf8Size_digitChar]
      rfl

theorem toDigits_size_le (b n k : ℕ) (hb : 1 < b) (hk : 0 < k) (hn : n < b ^ k) :
    (String.ofList (Nat.toDigits b n)).utf8ByteSize ≤ k := by
  rw [utf8ByteSize_toDigits b n hb]
  exact (Nat.length_toDigits_le_iff hb hk).mpr hn

theorem toString_size_le (n k : ℕ) (hk : 0 < k) (hn : n < 10 ^ k) :
    (toString n).utf8ByteSize ≤ k := by
  rw [Nat.toString_eq_ofList_toDigits]
  exact toDigits_size_le 10 n k (by decide) hk hn

theorem hexText_size (n : UInt16) : (hexText n).utf8ByteSize ≤ 4 :=
  toDigits_size_le 16 n.toNat 4 (by decide) (by decide) n.toNat_lt

theorem Ipv4Addr.text_size (ip : Ipv4Addr) : ip.text.utf8ByteSize ≤ 15 := by
  have ha := toString_size_le ip.a.toNat 3 (by decide) (by have := ip.a.toNat_lt; omega)
  have hb := toString_size_le ip.b.toNat 3 (by decide) (by have := ip.b.toNat_lt; omega)
  have hc := toString_size_le ip.c.toNat 3 (by decide) (by have := ip.c.toNat_lt; omega)
  have hd := toString_size_le ip.d.toNat 3 (by decide) (by have := ip.d.toNat_lt; omega)
  have hdot : ".".utf8ByteSize = 1 := rfl
  simp only [Ipv4Addr.text, String.utf8ByteSize_append, hdot]
  omega

theorem fmtSubslice_size (chunk : List UInt16) :
    (fmtSubslice chunk).utf8ByteSize ≤ 5 * chunk.length - 1 := by
  induction chunk with
  | nil => exact Nat.le_refl 0
  | cons s ss ih =>
    have hs := hexText_size s
    cases ss with
    | nil =>
      simp only [fmtSubslice, List.map_cons, List.map_nil, String.intercalate_singleton,
        List.length_singleton]
      omega
    | cons s' ss =>
      have hcolon : ":".utf8ByteSize = 1 := rfl
      simp only [fmtSubslice, List.map_cons, String.intercalate_cons_cons,
        String.utf8ByteSize_append, List.length_cons, hcolon] at ih ⊢
      omega

/-- The span found lies within what has been looked at. -/
theorem zeroSpan_le (ss : List UInt16) (i : ℕ) (current longest : Span)
    (hc : current.len = 0 ∨ current.start + current.len = i)
    (hl : longest.start + longest.len ≤ i) :
    (zeroSpan ss i current longest).start + (zeroSpan ss i current longest).len ≤
      i + ss.length := by
  induction ss generalizing i current longest with
  | nil => exact hl
  | cons s ss ih =>
    rw [List.length_cons, Nat.add_comm ss.length, ← Nat.add_assoc]
    unfold zeroSpan
    split
    · apply ih
      · right
        dsimp only
        split <;> omega
      · dsimp only
        split
        · dsimp only
          split <;> omega
        · omega
    · exact ih _ _ _ (Or.inl rfl) (by omega)

theorem Ipv6Addr.text_size (ip : Ipv6Addr) : ip.text.utf8ByteSize ≤ 39 := by
  have hall := fmtSubslice_size ip.segments
  rw [ip.eight] at hall
  unfold Ipv6Addr.text
  split
  · next v4 _ =>
    have hv4 := v4.text_size
    have hmapped : "::ffff:".utf8ByteSize = 7 := rfl
    rw [String.utf8ByteSize_append, hmapped]
    omega
  · dsimp only
    split
    · next hlen =>
      have hspan := zeroSpan_le ip.segments 0 ⟨0, 0⟩ ⟨0, 0⟩ (Or.inl rfl) (Nat.le_refl 0)
      rw [ip.eight] at hspan
      generalize zeroSpan ip.segments 0 ⟨0, 0⟩ ⟨0, 0⟩ = z at hlen hspan
      have htake := fmtSubslice_size (ip.segments.take z.start)
      have hdrop := fmtSubslice_size (ip.segments.drop (z.start + z.len))
      have hgap : "::".utf8ByteSize = 2 := rfl
      rw [List.length_take, ip.eight] at htake
      rw [List.length_drop, ip.eight] at hdrop
      rw [String.utf8ByteSize_append, String.utf8ByteSize_append, hgap]
      omega
    · exact hall

/-- `[` and `]:`, an IPv6 address, a scope and a port. -/
theorem SocketAddr.text_size (s : SocketAddr) : s.text.utf8ByteSize ≤ 58 := by
  have h1 : ":".utf8ByteSize = 1 := rfl
  have h2 : "[".utf8ByteSize = 1 := rfl
  have h3 : "]:".utf8ByteSize = 2 := rfl
  have h4 : "%".utf8ByteSize = 1 := rfl
  have hport (p : UInt16) : (toString p.toNat).utf8ByteSize ≤ 5 :=
    toString_size_le p.toNat 5 (by decide) (by have := p.toNat_lt; omega)
  cases s with
  | v4 ip port =>
    have hip := ip.text_size
    have hp := hport port
    simp only [SocketAddr.text, String.utf8ByteSize_append, h1]
    omega
  | v6 ip port flowinfo scopeId =>
    have hip := ip.text_size
    have hp := hport port
    have hscope := toString_size_le scopeId.toNat 10 (by decide)
      (by have := scopeId.toNat_lt; omega)
    simp only [SocketAddr.text]
    split
    · simp only [String.utf8ByteSize_append, h2, h3]
      omega
    · simp only [String.utf8ByteSize_append, h2, h3, h4]
      omega

/-! ### Two ways of writing an address -/

/-- The text an address has when its two parts are put together with a colon. -/
theorem SocketAddr.text_joined_iff (s : SocketAddr) :
    s.ip.text ++ ":" ++ toString s.port.toNat = s.text ↔ s.isIpv4 = true := by
  cases s with
  | v4 ip port => simp [SocketAddr.ip, SocketAddr.port, SocketAddr.text, IpAddr.text, isIpv4]
  | v6 ip port flowinfo scopeId =>
    -- the brackets alone make the whole text longer than the joined parts
    simp only [SocketAddr.isIpv4, Bool.false_eq_true, iff_false]
    intro h
    have hlen := congrArg String.length h
    simp only [SocketAddr.ip, SocketAddr.port, SocketAddr.text, IpAddr.text] at hlen
    split at hlen
    · simp only [String.length_append] at hlen
      have h1 : ":".length = 1 := rfl
      have h2 : "[".length = 1 := rfl
      have h3 : "]:".length = 2 := rfl
      omega
    · simp only [String.length_append] at hlen
      have h1 : ":".length = 1 := rfl
      have h2 : "[".length = 1 := rfl
      have h3 : "]:".length = 2 := rfl
      have h4 : "%".length = 1 := rfl
      omega

example : (⟨[0x2001, 0xdb8, 0, 0, 1, 0, 0, 1], rfl⟩ : Ipv6Addr).text = "2001:db8::1:0:0:1" := by
  decide

end FiveNinesEcho.Lib
