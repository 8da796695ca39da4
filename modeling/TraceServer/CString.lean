import Mathlib.Algebra.Order.Ring.Int
import Mathlib.Data.List.Basic
import Mathlib.Data.List.TakeWhile
import TraceServer.Lib.Occurs

/-!
# C strings, `char` arrays and the conversions of libc

A buffer is a list of bytes and the C string in it is what stands before its first
NUL. A `char[n]` that the program only ever reads as a string is a `CArr n`, which
carries the proof that the string and its terminator fit, so a truncating
`snprintf` is the only way to fill one.

An `int` is an `Int`; `toInt` is the conversion of a wider value to it.
-/

namespace TraceServer

abbrev Bytes := List UInt8

/-- The bytes of a string literal. -/
def lit (s : String) : Bytes := s.toList.map fun c => UInt8.ofNat c.toNat

/-- Conversion of a wider integer to a 32-bit `int`. -/
def toInt (n : Int) : Int := (BitVec.ofInt 32 n).toInt

def intMax : Int := 2147483647

theorem toInt_eq_bmod (n : Int) : toInt n = n.bmod (2 ^ 32) := by
  unfold toInt
  rw [BitVec.toInt_ofInt]

theorem toInt_eq_self {n : Int} (h0 : 0 ≤ n) (h : n ≤ intMax) : toInt n = n := by
  unfold intMax at h
  rw [toInt_eq_bmod]
  exact Int.bmod_eq_of_le (by omega) (by omega)

theorem toInt_lt (n : Int) : toInt n ≤ intMax := by
  have := BitVec.toInt_lt (x := BitVec.ofInt 32 n)
  unfold toInt intMax
  omega

/-! ## Strings -/

/-- The C string at the start of a buffer. -/
def cstr (buf : Bytes) : Bytes := buf.takeWhile (· != 0)

def strlen (buf : Bytes) : Nat := (cstr buf).length

/-- `strchr` of a byte other than NUL, as an offset. -/
def strchr (buf : Bytes) (c : UInt8) : Option Nat := (cstr buf).idxOf? c

/-- `strstr`, as an offset. -/
def strstr (buf find : Bytes) : Option Nat := (cstr find).firstOcc (cstr buf)

theorem cstr_noNul (buf : Bytes) : (0 : UInt8) ∉ cstr buf := by
  intro h
  have := List.mem_takeWhile_imp h
  simp at this

theorem cstr_eq_self {buf : Bytes} (h : (0 : UInt8) ∉ buf) : cstr buf = buf := by
  refine List.takeWhile_eq_self_iff.mpr fun c hc => ?_
  have : c ≠ 0 := fun h0 => h (h0 ▸ hc)
  simpa using this

/-- What stands behind the terminator does not matter. -/
theorem cstr_append_nul {s : Bytes} (h : (0 : UInt8) ∉ s) (more : Bytes) :
    cstr (s ++ 0 :: more) = s := by
  have hall : ∀ c ∈ s, (c != 0) = true := by
    intro c hc
    have hne : c ≠ 0 := fun h0 => h (h0 ▸ hc)
    simpa using hne
  rw [cstr, List.takeWhile_append_of_pos hall, List.takeWhile_cons_of_neg (by simp),
    List.append_nil]

/-- The string comes first in the buffer. -/
theorem cstr_isPrefix (buf : Bytes) : cstr buf <+: buf := List.takeWhile_prefix _

/-- A string that ends in the zeroed part of a buffer lies before that part. -/
theorem cstr_append_zeros (s : Bytes) (n : Nat) : cstr (s ++ List.replicate n 0) = cstr s := by
  unfold cstr
  rw [List.takeWhile_append]
  split
  · have : (List.replicate n (0 : UInt8)).takeWhile (· != 0) = [] := by
      cases n <;> simp [List.replicate_succ]
    rw [this, List.append_nil]
    rename_i hlen
    exact (List.takeWhile_eq_self_iff.mpr (List.takeWhile_eq_self_iff.mp
      ((List.takeWhile_prefix _).eq_of_length hlen))).symm
  · rfl

/-- A NUL-terminated string in a `char[n]`. -/
structure CArr (n : Nat) where
  str : Bytes
  /-- The string and its terminator fit. -/
  fits : str.length < n
  /-- The terminator is the first NUL. -/
  noNul : (0 : UInt8) ∉ str
deriving DecidableEq

/-- `snprintf(arr, size, "%s", s)` into a `char[n]`. The two sizes are constants of the
source, so that `size` fits is settled by evaluation. -/
def snprintf (n size : Nat) (s : Bytes)
    (h : decide (0 < size ∧ size ≤ n) = true := by exact Eq.refl true) : CArr n where
  str := (cstr s).take (size - 1)
  fits := by
    have := of_decide_eq_true h
    have := List.length_take_le (size - 1) (cstr s)
    omega
  noNul := fun h0 => cstr_noNul s (List.mem_of_mem_take h0)

/-- A zeroed array. -/
def CArr.zero (n : Nat) (h : decide (0 < n) = true := by exact Eq.refl true) : CArr n :=
  ⟨[], of_decide_eq_true h, by simp⟩

theorem snprintf_str (n size : Nat) (s : Bytes) (h : decide (0 < size ∧ size ≤ n) = true) :
    (snprintf n size s h).str = (cstr s).take (size - 1) := rfl

/-- Nothing is cut from a string that fits. -/
theorem snprintf_str_of_fits {n size : Nat} {s : Bytes} {h : decide (0 < size ∧ size ≤ n) = true}
    (h0 : (0 : UInt8) ∉ s) (hs : s.length < size) : (snprintf n size s h).str = s := by
  rw [snprintf_str, cstr_eq_self h0, List.take_of_length_le (by omega)]

/-! ## Numbers -/

def isDigit (c : UInt8) : Bool := 48 ≤ c && c ≤ 57

/-- `%lu`. -/
def fmtLu (n : Nat) : Bytes := (Nat.toDigits 10 n).map fun c => UInt8.ofNat c.toNat

/-- `%d`. -/
def fmtD (i : Int) : Bytes := if i < 0 then 45 :: fmtLu i.natAbs else fmtLu i.natAbs

/-- `%02d` of a number that is not negative. -/
def fmt02d (n : Nat) : Bytes := if n < 10 then 48 :: fmtLu n else fmtLu n

/-- The value of the digits at the start of a string, on top of `acc`. -/
def digitsVal : Bytes → Nat → Nat
  | [], acc => acc
  | c :: s, acc => if isDigit c then digitsVal s (acc * 10 + (c.toNat - 48)) else acc

def isSpace (c : UInt8) : Bool := c == 32 || (9 ≤ c && c ≤ 13)

/-- `strtol(s, NULL, 10)` with a 64-bit `long`: it saturates. -/
def strtol (s : Bytes) : Int :=
  match (cstr s).dropWhile isSpace with
  | 45 :: s => max (-9223372036854775808) (-(digitsVal s 0 : Int))
  | 43 :: s => min 9223372036854775807 (digitsVal s 0 : Int)
  | s => min 9223372036854775807 (digitsVal s 0 : Int)

/-- `atoi`, which is `(int) strtol`. -/
def atoi (s : Bytes) : Int := toInt (strtol s)

theorem digitChar_isDigit {c : Char} (h : c.isDigit) : isDigit (UInt8.ofNat c.toNat) = true := by
  have h' : 48 ≤ c.toNat ∧ c.toNat ≤ 57 := by
    simpa [Char.isDigit, UInt32.le_iff_toNat_le] using h
  simp only [isDigit, UInt8.le_iff_toNat_le, Bool.and_eq_true, decide_eq_true_eq,
    UInt8.toNat_ofNat']
  have h48 : (48 : UInt8).toNat = 48 := rfl
  have h57 : (57 : UInt8).toNat = 57 := rfl
  omega

theorem isDigit_of_mem_fmtLu {n : Nat} {b : UInt8} (h : b ∈ fmtLu n) : isDigit b = true := by
  obtain ⟨c, hc, rfl⟩ := List.mem_map.mp h
  exact digitChar_isDigit (Nat.isDigit_of_mem_toDigits (by omega) (by omega) hc)

/-- A decimal digit is determined by its byte. -/
theorem digitByte_inj {c d : Char} (hc : c.isDigit) (hd : d.isDigit)
    (h : UInt8.ofNat c.toNat = UInt8.ofNat d.toNat) : c = d := by
  have hc' : c.toNat ≤ 57 := by
    have := (by simpa [Char.isDigit, UInt32.le_iff_toNat_le] using hc : 48 ≤ c.toNat ∧ c.toNat ≤ 57)
    exact this.2
  have hd' : d.toNat ≤ 57 := by
    have := (by simpa [Char.isDigit, UInt32.le_iff_toNat_le] using hd : 48 ≤ d.toNat ∧ d.toNat ≤ 57)
    exact this.2
  have hn := congrArg UInt8.toNat h
  simp only [UInt8.toNat_ofNat'] at hn
  have : c.toNat = d.toNat := by omega
  exact Char.toNat_inj.mp this

theorem digitBytes_inj : ∀ {s t : List Char}, (∀ c ∈ s, c.isDigit) → (∀ c ∈ t, c.isDigit) →
    (s.map fun c => UInt8.ofNat c.toNat) = (t.map fun c => UInt8.ofNat c.toNat) → s = t
  | [], [], _, _, _ => rfl
  | [], d :: t, _, _, h => by simp at h
  | c :: s, [], _, _, h => by simp at h
  | c :: s, d :: t, hs, ht, h => by
      obtain ⟨h1, h2⟩ := List.cons.inj h
      rw [digitByte_inj (hs c List.mem_cons_self) (ht d List.mem_cons_self) h1,
        digitBytes_inj (fun x hx => hs x (List.mem_cons_of_mem _ hx))
          (fun x hx => ht x (List.mem_cons_of_mem _ hx)) h2]

/-- **A number is determined by its decimal form.** -/
theorem fmtLu_injective {m n : Nat} (h : fmtLu m = fmtLu n) : m = n := by
  have hd : Nat.toDigits 10 m = Nat.toDigits 10 n :=
    digitBytes_inj (fun _ hc => Nat.isDigit_of_mem_toDigits (by omega) (by omega) hc)
      (fun _ hc => Nat.isDigit_of_mem_toDigits (by omega) (by omega) hc) h
  rw [← Nat.ofDigitChars_ten_toDigits (n := m), hd, Nat.ofDigitChars_ten_toDigits]

theorem fmtLu_length_le {n k : Nat} (hk : 0 < k) (h : n < 10 ^ k) : (fmtLu n).length ≤ k := by
  unfold fmtLu
  rw [List.length_map]
  exact (Nat.length_toDigits_le_iff (by omega) hk).mpr h

end TraceServer
