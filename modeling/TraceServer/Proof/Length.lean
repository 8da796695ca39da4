import TraceServer.HttpRecv
import TraceServer.Proof.Lookup

/-!
# The declared length of a body (`httpRequest_get_content_length`)

The digits are checked and go through `atoi`, which saturates as a `long` and is cut to an
`int`. A number above `INT_MAX` comes out as what its low 32 bits are as an `int`, which may be
positive.
-/

namespace TraceServer

/-- The number a string of digits stands for. -/
def decimalValue (s : Bytes) : Nat := s.foldl (fun n c => n * 10 + (c.toNat - 48)) 0

theorem digitsVal_eq_foldl : ∀ (s : Bytes) (acc : Nat), (∀ c ∈ s, isDigit c = true) →
    digitsVal s acc = s.foldl (fun n c => n * 10 + (c.toNat - 48)) acc
  | [], _, _ => rfl
  | c :: s, acc, h => by
      rw [digitsVal, if_pos (h c List.mem_cons_self), List.foldl_cons]
      exact digitsVal_eq_foldl s _ fun d hd => h d (List.mem_cons_of_mem _ hd)

/-- A digit is no NUL, no space and no sign. -/
theorem isDigit_facts {c : UInt8} (h : isDigit c = true) :
    c ≠ 0 ∧ isSpace c = false ∧ c ≠ 45 ∧ c ≠ 43 := by
  simp only [isDigit, Bool.and_eq_true, decide_eq_true_eq] at h
  simp only [isSpace, Bool.or_eq_false_iff, beq_eq_false_iff_ne, Bool.and_eq_false_iff,
    decide_eq_false_iff_not]
  grind

/-- **`strtol` of digits** saturates. -/
theorem strtol_digits {s : Bytes} (h : ∀ c ∈ s, isDigit c = true) :
    strtol s = min 9223372036854775807 (decimalValue s : Int) := by
  have hcstr : cstr s = s := cstr_eq_self fun h0 => (isDigit_facts (h 0 h0)).1 rfl
  have hdrop : s.dropWhile isSpace = s := by
    cases s with
    | nil => rfl
    | cons c s =>
        refine List.dropWhile_cons_of_neg ?_
        rw [(isDigit_facts (h c List.mem_cons_self)).2.1]
        simp
  unfold strtol
  rw [hcstr, hdrop]
  split
  · rename_i rest
    exact absurd rfl (isDigit_facts (h 45 List.mem_cons_self)).2.2.1
  · rename_i rest
    exact absurd rfl (isDigit_facts (h 43 List.mem_cons_self)).2.2.2
  · rw [digitsVal_eq_foldl s 0 h]
    rfl

/-- The numbers that do not turn into another positive one: those up to `INT_MAX`, those a `long`
cannot hold, and those that are zero or negative as an `int`. -/
def LengthKept (v : Nat) : Prop :=
  v < 2 ^ 31 ∨ 2 ^ 63 ≤ v ∨ v % 2 ^ 32 = 0 ∨ 2 ^ 31 ≤ v % 2 ^ 32

theorem toInt_saturated_iff (v : Nat) :
    (((v : Int) ≤ intMax → toInt (min 9223372036854775807 (v : Int)) = v)
        ∧ (intMax < (v : Int) → toInt (min 9223372036854775807 (v : Int)) ≤ 0)) ↔ LengthKept v := by
  unfold LengthKept intMax
  rw [toInt_eq_bmod, Int.bmod_def]
  omega

theorem httpRequestContextBufInit_contextLen {r : HttpRequest} (os : Os) (h : r.contextBuf = none) :
    (httpRequestContextBufInit r os).2.1.contextLen = httpRequestGetContentLength r := by
  unfold httpRequestContextBufInit
  rw [h, Option.isNone_none, if_pos rfl]
  dsimp only
  split
  · split <;> rfl
  · rfl

theorem isName_contentLength : IsName (lit "Content-Length") :=
  ⟨⟨by decide, by decide, by decide⟩, by decide, by decide⟩

/-- What is taken for the field is what `httpRequest_get_content_length` finds. -/
theorem findField_contentLength {r : HttpRequest} {s : Bytes}
    (hfits : strlen r.header < httpRequestHeaderBufSize)
    (htaken : TakenForField r.text (lit "Content-Length") 31 s) :
    httpRequestFindField r (lit "Content-Length") 31 = some s :=
  (httpRequestFindField_eq_some_iff hfits isName_contentLength (by decide) (by decide)).mpr htaken

theorem httpRequestGetContentLength_digits {r : HttpRequest} {s : Bytes}
    (hfield : httpRequestFindField r (lit "Content-Length") 31 = some s)
    (hdigits : ∀ c ∈ s, isDigit c = true) :
    httpRequestGetContentLength r = toInt (min 9223372036854775807 (decimalValue s : Int)) := by
  unfold httpRequestGetContentLength
  rw [hfield]
  dsimp only
  rw [if_pos (List.all_eq_true.mpr hdigits), atoi, strtol_digits hdigits]

/-- **The declared length is kept, or refused, exactly when it does not wrap around.** -/
theorem contentLength_iff (r : HttpRequest) (s : Bytes)
    (hfits : strlen r.header < httpRequestHeaderBufSize)
    (htaken : TakenForField r.text (lit "Content-Length") 31 s)
    (hdigits : ∀ c ∈ s, isDigit c = true) :
    (((decimalValue s : Int) ≤ intMax → httpRequestGetContentLength r = decimalValue s)
        ∧ (intMax < (decimalValue s : Int) → httpRequestGetContentLength r ≤ 0)
        ∧ ∀ os, r.contextBuf = none → 0 < (httpRequestContextBufInit r os).2.1.contextLen →
          (httpRequestContextBufInit r os).2.1.contextLen = decimalValue s)
      ↔ LengthKept (decimalValue s) := by
  have hlength := httpRequestGetContentLength_digits (findField_contentLength hfits htaken) hdigits
  rw [← toInt_saturated_iff, ← hlength]
  constructor
  · rintro ⟨hkept, hrefused, _⟩
    exact ⟨hkept, hrefused⟩
  · rintro ⟨hkept, hrefused⟩
    refine ⟨hkept, hrefused, ?_⟩
    intro os hnone hpos
    rw [httpRequestContextBufInit_contextLen os hnone] at hpos ⊢
    exact hkept (by by_contra hgt; exact absurd (hrefused (by omega)) (by omega))

/-- The second line of the header has the name, and its value has spaces around it. -/
theorem contentLength_iff_twelve :
    (((decimalValue (lit "12") : Int) ≤ intMax →
          httpRequestGetContentLength lengthHeader.request = decimalValue (lit "12"))
        ∧ (intMax < (decimalValue (lit "12") : Int) →
          httpRequestGetContentLength lengthHeader.request ≤ 0)
        ∧ ∀ os, lengthHeader.request.contextBuf = none →
          0 < (httpRequestContextBufInit lengthHeader.request os).2.1.contextLen →
          (httpRequestContextBufInit lengthHeader.request os).2.1.contextLen
            = decimalValue (lit "12"))
      ↔ LengthKept (decimalValue (lit "12")) :=
  contentLength_iff lengthHeader.request (lit "12") (by decide +kernel)
    (lengthHeader.takenForField (f := lengthHeader.fields.getLast (by decide)) isName_contentLength
      (by decide) rfl (by decide))
    (List.all_eq_true.mp (by decide))

/-- A body of 2^32 + 5 bytes is announced, and 5 are waited for. -/
theorem contentLength_wraps :
    ¬ ∀ (r : HttpRequest) (s : Bytes), strlen r.header < httpRequestHeaderBufSize →
      TakenForField r.text (lit "Content-Length") 31 s → (∀ c ∈ s, isDigit c = true) →
      ((decimalValue s : Int) ≤ intMax → httpRequestGetContentLength r = decimalValue s)
        ∧ (intMax < (decimalValue s : Int) → httpRequestGetContentLength r ≤ 0) := by
  intro h
  have hfits : strlen (HttpRequest.ofHeader
      (lit "POST /index HTTP/1.1\r\nContent-Length: 4294967301\r\n\r\n")).header
      < httpRequestHeaderBufSize := by
    decide +kernel
  have hfield : httpRequestFindField
      (.ofHeader (lit "POST /index HTTP/1.1\r\nContent-Length: 4294967301\r\n\r\n"))
      (lit "Content-Length") 31 = some (lit "4294967301") := by
    decide +kernel
  have htaken := (httpRequestFindField_eq_some_iff hfits isName_contentLength (by decide)
    (by decide)).mp hfield
  have hdigits : ∀ c ∈ lit "4294967301", isDigit c = true := List.all_eq_true.mp (by decide)
  have hfive : toInt (min 9223372036854775807 (decimalValue (lit "4294967301") : Int)) = 5 := by
    decide
  have hrefused := (h _ _ hfits htaken hdigits).2 (by decide)
  rw [httpRequestGetContentLength_digits hfield hdigits, hfive] at hrefused
  exact absurd hrefused (by decide)

end TraceServer
