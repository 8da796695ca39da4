import TraceServer.Upload
import TraceServer.Proof.Complete
import TraceServer.Proof.Info

/-!
# Requests as the test prints them

What the test puts into a request, the server reads back: the numbers, the values with a space on
either side, the lines of the header up to the first empty one, which is where it ends. The server
reads the request line by its words and the fields by their lines, and both are of the same text.
-/

namespace TraceServer

/-! ## Numbers -/

theorem digitByte_value {c : Char} (h : c.isDigit) :
    (UInt8.ofNat c.toNat).toNat - 48 = c.toNat - '0'.toNat := by
  have hc : c.toNat ≤ 57 := by
    have := (by simpa [Char.isDigit, UInt32.le_iff_toNat_le] using h : 48 ≤ c.toNat ∧ c.toNat ≤ 57)
    exact this.2
  have h0 : '0'.toNat = 48 := rfl
  rw [UInt8.toNat_ofNat', h0]
  omega

theorem decimalValue_digits : ∀ (cs : List Char) (acc : Nat), (∀ c ∈ cs, c.isDigit) →
    (cs.map fun c => UInt8.ofNat c.toNat).foldl (fun n c => n * 10 + (c.toNat - 48)) acc
      = Nat.ofDigitChars 10 cs acc
  | [], acc, _ => Nat.ofDigitChars_nil.symm
  | c :: cs, acc, h => by
      rw [List.map_cons, List.foldl_cons, Nat.ofDigitChars_cons,
        digitByte_value (h c List.mem_cons_self), Nat.mul_comm acc 10]
      exact decimalValue_digits cs _ fun d hd => h d (List.mem_cons_of_mem _ hd)

/-- **A number that is printed is read back.** -/
theorem decimalValue_fmtLu (n : Nat) : decimalValue (fmtLu n) = n := by
  have hdigits : ∀ c ∈ Nat.toDigits 10 n, c.isDigit :=
    fun c hc => Nat.isDigit_of_mem_toDigits (by omega) (by omega) hc
  exact (decimalValue_digits _ 0 hdigits).trans Nat.ofDigitChars_ten_toDigits

theorem isdigitStr_fmtLu (n : Nat) : isdigitStr (fmtLu n) = true := by
  have hcstr : cstr (fmtLu n) = fmtLu n := cstr_eq_self (fmtLu_word n).noNul
  have hall : (fmtLu n).takeWhile isDigit = fmtLu n :=
    List.takeWhile_eq_self_iff.mpr fun c hc => isDigit_of_mem_fmtLu hc
  have hpos := List.length_pos_iff.mpr (fmtLu_ne_nil n)
  unfold isdigitStr strlen
  rw [hcstr, hall]
  simpa using hpos

theorem toInt_saturated {n : Nat} (h : (n : Int) ≤ intMax) :
    toInt (min 9223372036854775807 (n : Int)) = n := by
  unfold intMax at h
  rw [show min 9223372036854775807 (n : Int) = n by omega]
  exact toInt_eq_self (by omega) (by unfold intMax; omega)

/-! ## The end of a header -/

theorem headerEnd_eq : headerEnd = [13, 10, 13, 10] := by decide

/-- Behind a line end there is no other, if a line follows. -/
theorem headerEnd_line (f : Field) (t : Bytes) (i : Nat) :
    List.OccursAt headerEnd (f.line ++ t) i
      ↔ ∃ k, i = f.line.length + k ∧ List.OccursAt headerEnd t k := by
  have hline : f.line ++ t = 13 :: ((10 :: (f.name ++ 58 :: f.value)) ++ t) := by
    rw [Field.line, crlf_eq, colon_eq]
    simp
  have hlen : f.line.length = (10 :: (f.name ++ 58 :: f.value)).length + 1 := by
    rw [Field.line, crlf_eq, colon_eq]
    simp
  have hcr : (13 : UInt8) ∉ 10 :: (f.name ++ 58 :: f.value) := by
    simp only [List.mem_cons, List.mem_append, not_or]
    exact ⟨by decide, f.name_line.noCr, by decide, f.value_line.noCr⟩
  rw [hline, headerEnd_eq]
  cases i with
  | zero =>
      constructor
      · -- the byte behind the line end is one of the line
        intro hocc
        obtain ⟨c, rest, hcons⟩ :=
          List.exists_cons_of_ne_nil (List.append_ne_nil_of_right_ne_nil f.name
            (List.cons_ne_nil 58 f.value))
        rw [hcons] at hocc hcr
        simp only [List.occursAt_zero, List.cons_append, List.cons_prefix_cons] at hocc
        obtain ⟨_, _, rfl, _⟩ := hocc
        exact absurd (List.mem_cons_of_mem _ List.mem_cons_self) hcr
      · rintro ⟨k, hk, _⟩
        omega
  | succ i =>
      rw [List.occursAt_cons_succ, List.occursAt_append_of_not_mem hcr, hlen]
      constructor
      · rintro ⟨k, rfl, hk⟩
        exact ⟨k, by omega, hk⟩
      · rintro ⟨k, hi, hk⟩
        exact ⟨k, by omega, hk⟩

theorem headerEnd_lines : ∀ (fs : List Field) (t : Bytes) (i : Nat),
    List.OccursAt headerEnd (fs.flatMap Field.line ++ t) i
      ↔ ∃ k, i = (fs.flatMap Field.line).length + k ∧ List.OccursAt headerEnd t k
  | [], t, i => by simp
  | f :: fs, t, i => by
      rw [List.flatMap_cons, List.append_assoc, headerEnd_line, List.length_append]
      constructor
      · rintro ⟨k, rfl, hk⟩
        obtain ⟨l, rfl, hl⟩ := (headerEnd_lines fs t k).mp hk
        exact ⟨l, by omega, hl⟩
      · rintro ⟨l, rfl, hl⟩
        exact ⟨(fs.flatMap Field.line).length + l, by omega, (headerEnd_lines fs t _).mpr ⟨l, rfl, hl⟩⟩

/-- **A header ends in the first empty line it has.** -/
theorem HeaderText.first (h : HeaderText) :
    List.IsFirstOcc headerEnd h.bytes (h.bytes.length - 4) := by
  have hbytes : h.bytes
      = (h.requestLine ++ h.fields.flatMap Field.line) ++ (crlf ++ crlf) := by
    rw [HeaderText.bytes, headerBytes_eq, List.append_assoc]
  have hlen : h.bytes.length - 4 = (h.requestLine ++ h.fields.flatMap Field.line).length + 0 := by
    rw [hbytes, crlf_eq]
    simp only [List.length_append, List.length_cons, List.length_nil]
    omega
  rw [hlen, hbytes]
  have hend : List.IsFirstOcc headerEnd (crlf ++ crlf) 0 :=
    ⟨List.occursAt_zero.mpr (by decide), fun j hj => absurd hj (Nat.not_lt_zero j)⟩
  refine List.IsFirstOcc.shift ?_ hend
  intro i
  have hlines := headerEnd_lines h.fields (crlf ++ crlf)
  rw [List.append_assoc, List.length_append]
  rw [headerEnd_eq] at hlines ⊢
  rw [List.occursAt_append_of_not_mem h.line.noCr]
  constructor
  · rintro ⟨k, rfl, hk⟩
    obtain ⟨l, rfl, hl⟩ := (hlines k).mp hk
    exact ⟨l, by omega, hl⟩
  · rintro ⟨l, rfl, hl⟩
    exact ⟨(h.fields.flatMap Field.line).length + l, by omega, (hlines _).mpr ⟨l, rfl, hl⟩⟩

/-! ## The two readings of a request -/

theorem dropWhile_token {v t : Bytes} (hv : (32 : UInt8) ∉ v) (hne : v ≠ []) :
    (v ++ t).dropWhile (· == 32) = v ++ t := by
  obtain ⟨c, rest, rfl⟩ := List.exists_cons_of_ne_nil hne
  rw [List.cons_append, List.dropWhile_cons_of_neg]
  simp only [beq_iff_eq]
  rintro rfl
  exact hv List.mem_cons_self

theorem trimSpaces_spaced {v : Bytes} (hv : (32 : UInt8) ∉ v) (hne : v ≠ []) :
    trimSpaces (spaced v) = v := by
  have hlast : List.rdropWhile (· == 32) v = v := by
    rw [List.rdropWhile, ← List.append_nil v.reverse, dropWhile_token (by simpa) (by simpa),
      List.append_nil, List.reverse_reverse]
  rw [trimSpaces, spaced, List.dropWhile_cons_of_pos (by simp), dropWhile_token hv hne,
    List.rdropWhile_concat_pos _ _ _ (by simp), hlast]

theorem httpRequestFindField_spaced (h : HeaderText) {find v : Bytes} {valueBufSize : Int}
    (hfind : IsName find) (hlen : find.length ≤ 244) {f : Field} (hf : h.lookup find = some f)
    (hvalue : f.value = spaced v) (hv : IsToken v) (hsize : (v.length : Int) + 2 < valueBufSize) :
    httpRequestFindField h.request find valueBufSize = some v := by
  have hspaced : (f.value.length : Int) < valueBufSize := by
    rw [hvalue, spaced, List.length_cons, List.length_append, List.length_singleton]
    omega
  rw [httpRequestFindField_value h hfind hlen hf hspaced, hvalue,
    trimSpaces_spaced hv.noSpace hv.ne_nil]

/-- The words of a request, one after the other. -/
theorem post_text (url : Bytes) (fields : List Field) :
    lit "POST" ++ (List.replicate (0 + 1) 32 ++ (url ++ 32 :: (lit " HTTP/1.1 "
        ++ (crlf ++ (fields.flatMap Field.bytes ++ crlf)))))
      = headerBytes (postLine url) fields := by
  have hmethod : lit "POST " = lit "POST" ++ List.replicate (0 + 1) 32 := by decide
  have hversion : lit "  HTTP/1.1 " = 32 :: lit " HTTP/1.1 " := by decide
  rw [headerBytes, postLine, hmethod, hversion]
  simp only [List.append_assoc, List.cons_append]

namespace Post

variable (p : Post)

/-- By its lines. -/
def headerText : HeaderText where
  requestLine := postLine p.url
  fields := p.fields
  line := by
    have h := p.url_token
    have hno : ∀ d : UInt8, d ∉ lit "POST " → d ∉ p.url → d ∉ lit "  HTTP/1.1 " →
        d ∉ postLine p.url := by
      intro d h₁ h₂ h₃
      simp only [postLine, List.mem_append, not_or]
      exact ⟨h₁, h₂, h₃⟩
    exact ⟨hno 13 (by decide) h.noCr (by decide), hno 10 (by decide) h.noLf (by decide),
      hno 0 (by decide) h.noNul (by decide)⟩
  fits := Nat.lt_succ_of_lt p.fits

theorem headerText_bytes : p.headerText.bytes = p.header := rfl

/-- By the words of the request line. -/
def requestText : RequestText where
  method := lit "POST"
  spaces := 0
  url := p.url
  version := lit " HTTP/1.1 "
  fields := p.fields.flatMap Field.bytes ++ crlf
  method_token := post_isToken
  url_token := p.url_token
  noNul := by
    have h := p.headerText.noNul
    rw [headerText_bytes, header, headerBytes] at h
    simp only [List.mem_append, not_or] at h ⊢
    exact ⟨by decide, h.1.2, h.2⟩
  fits := (congrArg List.length (post_text p.url p.fields)).trans_lt (Nat.lt_succ_of_lt p.fits)

theorem requestText_bytes : p.requestText.bytes = p.header := post_text p.url p.fields

/-- Whichever way it is read, it is the same request. -/
theorem request_eq : p.requestText.request = p.headerText.request :=
  congrArg HttpRequest.ofHeader p.requestText_bytes

/-- A request that the server reads as a whole. -/
def complete (hpath : p.requestText.path = skylogRequestUrlPath) (hurl : p.url.length ≤ 253)
    (hbody : p.body ≠ []) (hlen : (p.body.length : Int) ≤ intMax)
    (hfield : p.headerText.lookup (lit "Content-Length") = some (contentLengthField p.body.length)) :
    CompleteRequest where
  req := p.requestText
  body := p.body
  path := hpath
  url_length := hurl
  first := by
    rw [requestText_bytes]
    exact p.headerText.first
  fits := by
    rw [requestText_bytes]
    exact p.fits
  contentLength := by
    have hdigits : (fmtLu p.body.length).length ≤ 10 := by
      unfold intMax at hlen
      exact fmtLu_length_le (by decide) (by omega)
    have hvalue : httpRequestFindField p.headerText.request (lit "Content-Length") 31
        = some (fmtLu p.body.length) :=
      httpRequestFindField_spaced p.headerText ⟨⟨by decide, by decide, by decide⟩, by decide,
        by decide⟩ (by decide) hfield rfl (fmtLu_word _).toIsToken (by omega)
    rw [request_eq, httpRequestGetContentLength_digits hvalue fun c hc => isDigit_of_mem_fmtLu hc,
      decimalValue_fmtLu, toInt_saturated hlen]
  body_ne_nil := hbody

end Post

/-! ## The query -/

/-- A byte that separates nothing and is in no word is not in the query. -/
theorem not_mem_queryBytes {d : UInt8} (heq : d ≠ 61) (hand : d ≠ 38) : ∀ {ps : List Parmer},
    (∀ p ∈ ps, d ∉ p.key ∧ d ∉ p.value) → d ∉ queryBytes ps
  | [], _ => by simp [queryBytes]
  | [p], h => by
      obtain ⟨hkey, hvalue⟩ := h p List.mem_cons_self
      simp only [queryBytes, Parmer.bytes, List.mem_append, List.mem_cons, not_or]
      exact ⟨hkey, heq, hvalue⟩
  | p :: q :: ps, h => by
      obtain ⟨hkey, hvalue⟩ := h p List.mem_cons_self
      have hrest := @not_mem_queryBytes d heq hand (q :: ps) fun p' hp' =>
        h p' (List.mem_cons_of_mem _ hp')
      rw [queryBytes_cons p (List.cons_ne_nil q ps)]
      simp only [Parmer.bytes, List.mem_append, List.mem_cons, not_or]
      exact ⟨⟨hkey, heq, hvalue⟩, hand, hrest⟩

end TraceServer
