import TraceServer.Proof.Path
import TraceServer.Proof.Length

/-!
# What of a request becomes the date and the type of a log

The client sends a date and a type, and each is checked before it is used. The date is to
be `YYYY-MM-DD`, but the tests of `_skylog_check_create_data` are chained by `else if` on
their negations and the verdict is the wrong way round: the loop stops at the first
character, and everything but the empty string passes. The type is to be one of the
enumerators, but only its digits are checked, not its range.
-/

namespace TraceServer

/-! ## The date -/

/-- Four digits, a dash, two digits, a dash, two digits. -/
def IsDateStr (s : Bytes) : Prop :=
  ∃ year mon data : Bytes, s = year ++ 45 :: (mon ++ 45 :: data)
    ∧ year.length = 4 ∧ mon.length = 2 ∧ data.length = 2
    ∧ ∀ c ∈ year ++ mon ++ data, isDigit c = true

theorem IsDateStr.length {s : Bytes} (h : IsDateStr s) : s.length = 10 := by
  obtain ⟨year, mon, data, rfl, hyear, hmon, hdata, _⟩ := h
  simp only [List.length_append, List.length_cons]
  omega

theorem IsDateStr.ne_nil {s : Bytes} (h : IsDateStr s) : s ≠ [] := by
  intro hnil
  have hlen := h.length
  rw [hnil] at hlen
  exact absurd hlen (by simp)

/-- Exactly the dates are accepted, and for any other string the path gets the current one. -/
structure DateFiltered (createData : CArr 32) : Prop where
  accepted : skylogCheckCreateData createData.str = true ↔ IsDateStr createData.str
  kept : IsDateStr createData.str → ∀ (s : Skylog) (os : Os), s.createData = createData →
    (createNewSkylogFile s os).skylog.createData = createData
  substituted : ¬ IsDateStr createData.str → ∀ (s : Skylog) (os : Os),
    s.createData = createData →
    (createNewSkylogFile s os).skylog.createData = snprintf 32 31 (fmtDate os.getSystemUTCTime.1)

/-- The date is settled before anything can fail. -/
theorem createNewSkylogFile_createData (s : Skylog) (os : Os) :
    (createNewSkylogFile s os).skylog.createData
      = skylogCreateData s.createData os.getSystemUTCTime.1 := by
  unfold createNewSkylogFile
  dsimp only
  split
  · split <;> rfl
  · rfl

/-- **The check of the date lets exactly the dates through only if the string is one, or is
empty.** -/
theorem dateFiltered_iff (createData : CArr 32) :
    DateFiltered createData ↔ createData.str = [] ∨ IsDateStr createData.str := by
  constructor
  · intro h
    by_cases hnil : createData.str = []
    · exact .inl hnil
    · exact .inr (h.accepted.mp ((skylogCheckCreateData_iff _).mpr hnil))
  · intro h
    -- on these strings "not empty" and "a date" are the same
    have haccepted : skylogCheckCreateData createData.str = true ↔ IsDateStr createData.str := by
      rw [skylogCheckCreateData_iff]
      rcases h with hnil | hdate
      · exact ⟨fun hne => absurd hnil hne, fun hdate => absurd hnil hdate.ne_nil⟩
      · exact ⟨fun _ => hdate, fun _ => hdate.ne_nil⟩
    refine ⟨haccepted, ?_, ?_⟩
    · intro hdate s os hs
      rw [createNewSkylogFile_createData, hs, skylogCreateData, if_pos (haccepted.mpr hdate)]
    · intro hdate s os hs
      rw [createNewSkylogFile_createData, hs, skylogCreateData,
        if_neg fun hcheck => hdate (haccepted.mp hcheck)]

/-- The date of this request is the way out of the directory. -/
theorem upwardDate_accepted :
    ¬ DateFiltered (parseSkylogInfo
      (.ofHeader (lit "POST /index HTTP/1.1\r\nCreate-Data: ../../x\r\n\r\n"))).createData := by
  have hdate : (parseSkylogInfo (.ofHeader
      (lit "POST /index HTTP/1.1\r\nCreate-Data: ../../x\r\n\r\n"))).createData.str
      = lit "../../x" := by
    decide +kernel
  intro h
  have hcheck : skylogCheckCreateData (lit "../../x") = true := by decide
  rw [← hdate] at hcheck
  have hlen := (h.accepted.mp hcheck).length
  rw [hdate] at hlen
  exact absurd hlen (by decide)

/-! ## The type -/

/-- The parameter `Type` of a request. -/
def typeParmer (r : HttpRequest) : Option Bytes :=
  httpRequestGetUrlParmerValue r (lit "Type") 4 1023

/-- The type of a parsed request has a name, and is `E_SKY_LOG_TYPE_UNKOWN` where the client
has not sent the number of another. -/
structure TypeParsed (r : HttpRequest) : Prop where
  inRange : skyLogTypeCrash ≤ (parseSkylogInfo r).type ∧ (parseSkylogInfo r).type ≤ skyLogTypeUnkown
  named : (getSkylogTypeName (parseSkylogInfo r).type).isSome = true
  missing : typeParmer r = none → (parseSkylogInfo r).type = skyLogTypeUnkown
  nonNumeric : ∀ v, typeParmer r = some v → isdigitStr v = false →
    (parseSkylogInfo r).type = skyLogTypeUnkown
  outOfRange : ∀ v, typeParmer r = some v → isdigitStr v = true →
    skyLogTypeUnkown < decimalValue (cstr v) → (parseSkylogInfo r).type = skyLogTypeUnkown

/-- The numbers that are types, and those that an `int` makes `E_SKY_LOG_TYPE_UNKOWN`. -/
def TypeKept (v : Nat) : Prop := v ≤ 6 ∨ (v < 2 ^ 63 ∧ v % 2 ^ 32 = 6)

theorem isdigitStr_all {s : Bytes} (h : isdigitStr s = true) : ∀ c ∈ cstr s, isDigit c = true := by
  unfold isdigitStr strlen at h
  obtain ⟨_, hlen⟩ := Bool.and_eq_true_iff.mp h
  have heq : (cstr s).takeWhile isDigit = cstr s :=
    (List.takeWhile_prefix isDigit).eq_of_length (beq_iff_eq.mp hlen)
  exact List.takeWhile_eq_self_iff.mp heq

/-- What stands behind the string is not read. -/
theorem strtol_cstr (s : Bytes) : strtol (cstr s) = strtol s := by
  unfold strtol
  rw [cstr_eq_self (cstr_noNul s)]

theorem atoi_of_isdigitStr {s : Bytes} (h : isdigitStr s = true) :
    atoi s = toInt (min 9223372036854775807 (decimalValue (cstr s) : Int)) := by
  rw [atoi, ← strtol_cstr, strtol_digits (isdigitStr_all h)]

theorem parseSkylogInfo_type (r : HttpRequest) :
    (parseSkylogInfo r).type = (match typeParmer r with
      | some value => if isdigitStr value then atoi value else skyLogTypeUnkown
      | none => skyLogTypeUnkown) := rfl

theorem parseSkylogInfo_type_none {r : HttpRequest} (h : typeParmer r = none) :
    (parseSkylogInfo r).type = skyLogTypeUnkown := by
  rw [parseSkylogInfo_type, h]

theorem parseSkylogInfo_type_text {r : HttpRequest} {v : Bytes} (h : typeParmer r = some v)
    (hv : isdigitStr v = false) : (parseSkylogInfo r).type = skyLogTypeUnkown := by
  rw [parseSkylogInfo_type, h]
  exact if_neg (by rw [hv]; simp)

theorem parseSkylogInfo_type_digits {r : HttpRequest} {v : Bytes} (h : typeParmer r = some v)
    (hv : isdigitStr v = true) :
    (parseSkylogInfo r).type = toInt (min 9223372036854775807 (decimalValue (cstr v) : Int)) := by
  rw [parseSkylogInfo_type, h, ← atoi_of_isdigitStr hv]
  exact if_pos hv

theorem toInt_typeKept_iff (v : Nat) :
    (skyLogTypeCrash ≤ toInt (min 9223372036854775807 (v : Int))
        ∧ toInt (min 9223372036854775807 (v : Int)) ≤ skyLogTypeUnkown
        ∧ (skyLogTypeUnkown < (v : Int) →
          toInt (min 9223372036854775807 (v : Int)) = skyLogTypeUnkown)) ↔ TypeKept v := by
  unfold TypeKept skyLogTypeCrash skyLogTypeUnkown
  rw [toInt_eq_bmod, Int.bmod_def]
  omega

/-- Every type in the range has a name. -/
theorem getSkylogTypeName_isSome {type : Int} (h0 : skyLogTypeCrash ≤ type)
    (h6 : type ≤ skyLogTypeUnkown) : (getSkylogTypeName type).isSome = true := by
  have hlt : type.toNat < skylogName.length := by
    show type.toNat < 7
    unfold skyLogTypeUnkown at h6
    omega
  rw [getSkylogTypeName, if_pos ⟨h0, h6⟩, List.getElem?_eq_getElem hlt]
  rfl

/-- **The type is one of the enumerators exactly when a number that is sent for it is in their
range, or turns into `E_SKY_LOG_TYPE_UNKOWN` on the way.** -/
theorem typeParsed_iff (r : HttpRequest) :
    TypeParsed r ↔ ∀ v, typeParmer r = some v → isdigitStr v = true →
      TypeKept (decimalValue (cstr v)) := by
  constructor
  · intro h v hv hdigits
    have hrange := h.inRange
    have hout := h.outOfRange v hv hdigits
    rw [parseSkylogInfo_type_digits hv hdigits] at hrange hout
    exact (toInt_typeKept_iff _).mp ⟨hrange.1, hrange.2, hout⟩
  · intro h
    have hrange : skyLogTypeCrash ≤ (parseSkylogInfo r).type
        ∧ (parseSkylogInfo r).type ≤ skyLogTypeUnkown := by
      cases hv : typeParmer r with
      | none =>
          rw [parseSkylogInfo_type_none hv]
          decide
      | some v =>
          by_cases hdigits : isdigitStr v = true
          · obtain ⟨hlow, hhigh, _⟩ := (toInt_typeKept_iff _).mpr (h v hv hdigits)
            rw [parseSkylogInfo_type_digits hv hdigits]
            exact ⟨hlow, hhigh⟩
          · rw [parseSkylogInfo_type_text hv (by simpa using hdigits)]
            decide
    refine ⟨hrange, getSkylogTypeName_isSome hrange.1 hrange.2,
      parseSkylogInfo_type_none, fun v => parseSkylogInfo_type_text, ?_⟩
    intro v hv hdigits hgt
    rw [parseSkylogInfo_type_digits hv hdigits]
    exact ((toInt_typeKept_iff _).mpr (h v hv hdigits)).2.2 hgt

/-- The type after the last. -/
theorem typeSeven_unnamed :
    ¬ TypeParsed (.ofHeader (lit "POST /index?Type=7 HTTP/1.1\r\n\r\n")) := by
  intro h
  have hname : getSkylogTypeName (parseSkylogInfo
      (.ofHeader (lit "POST /index?Type=7 HTTP/1.1\r\n\r\n"))).type = none := by
    decide +kernel
  have hsome := h.named
  rw [hname] at hsome
  exact Bool.noConfusion hsome

end TraceServer
