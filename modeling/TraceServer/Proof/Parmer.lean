import TraceServer.Proof.Url

/-!
# Looking up a parameter (`httpRequest_get_url_parmer_value`)

The key is searched for as text, with a `=` behind it, and the byte in front of the match tells
whether a parameter starts there. A `=` only stands behind a key, so the match is the end of a
key. But there is one search only: a longer key that comes first and ends in the same way hides
the key. And what is looked up need not be a key: with a `&` and a `=` in it, it may be whole
parameters and the key behind them.
-/

namespace TraceServer

/-! ## Where a key is found -/

theorem IsWord.infix_eq {v k : Bytes} (hv : IsWord v) : ¬ k ++ [61] <:+: v := by
  intro h
  exact hv.noEq (h.subset (List.mem_append_right _ List.mem_cons_self))

section

variable {k : Bytes}

/-- A key is found at the end of a longer one, or behind the parameter. -/
theorem occursAt_parmer (hk : (61 : UInt8) ∉ k) (hand : (38 : UInt8) ∉ k) (p : Parmer) (t : Bytes)
    (i : Nat) :
    List.OccursAt (k ++ [61]) (p.bytes ++ 38 :: t) i
      ↔ (k <:+ p.key ∧ i + k.length = p.key.length)
        ∨ ∃ j, i = p.bytes.length + 1 + j ∧ List.OccursAt (k ++ [61]) t j := by
  have hpatt : (38 : UInt8) ∉ k ++ [61] := by simp [hand]
  have hbytes : p.bytes ++ 38 :: t = p.key ++ 61 :: (p.value ++ 38 :: t) := by simp [Parmer.bytes]
  have hlen : p.bytes.length = p.key.length + 1 + p.value.length := by
    rw [Parmer.bytes, List.length_append, List.length_cons]
    omega
  rw [hbytes, List.occursAt_append_cons_of_last hk p.key_word.noEq]
  refine or_congr_right ?_
  constructor
  · rintro ⟨j, rfl, hj⟩
    obtain ⟨l, rfl, hl⟩ := (List.occursAt_append_cons_of_not_mem hpatt p.value_word.infix_eq).mp hj
    exact ⟨l, by omega, hl⟩
  · rintro ⟨l, rfl, hl⟩
    exact ⟨p.value.length + 1 + l, by omega,
      (List.occursAt_append_cons_of_not_mem hpatt p.value_word.infix_eq).mpr ⟨l, rfl, hl⟩⟩

/-- The last parameter has nothing behind it. -/
theorem occursAt_last (hk : (61 : UInt8) ∉ k) (p : Parmer) (i : Nat) :
    List.OccursAt (k ++ [61]) p.bytes i ↔ k <:+ p.key ∧ i + k.length = p.key.length := by
  rw [Parmer.bytes, List.occursAt_append_cons_of_last hk p.key_word.noEq, or_iff_left]
  rintro ⟨j, _, hj⟩
  exact p.value_word.infix_eq hj.isInfix

theorem queryBytes_cons (p : Parmer) {ps : List Parmer} (hps : ps ≠ []) :
    queryBytes (p :: ps) = p.bytes ++ 38 :: queryBytes ps := by
  cases ps with
  | nil => exact absurd rfl hps
  | cons q ps => rfl

/-- A key that no key ends in is nowhere. -/
theorem not_occursAt_query (hk : (61 : UInt8) ∉ k) (hand : (38 : UInt8) ∉ k) :
    ∀ {ps : List Parmer}, (∀ p ∈ ps, ¬ k <:+ p.key) →
    ∀ i, ¬ List.OccursAt (k ++ [61]) (queryBytes ps) i
  | [], _, i => by
      intro h
      have := h.le (by simp)
      rw [List.length_append] at this
      simp [queryBytes] at this
  | [p], hno, i => by
      intro h
      exact hno p List.mem_cons_self ((occursAt_last hk p i).mp h).1
  | p :: q :: ps, hno, i => by
      intro h
      rcases (occursAt_parmer hk hand p _ i).mp h with ⟨hsuffix, _⟩ | ⟨j, _, hj⟩
      · exact hno p List.mem_cons_self hsuffix
      · exact not_occursAt_query hk hand (fun p hp => hno p (List.mem_cons_of_mem _ hp)) j hj

/-- What stands in front of a parameter is nothing, or ends in a `&`. -/
def ParmerStarts (front : Bytes) : Prop := front = [] ∨ ∃ s, front = s ++ [38]

/-- What stands behind a parameter is nothing, or starts with a `&`. -/
def ParmerEnds (back : Bytes) : Prop := back = [] ∨ ∃ t, back = 38 :: t

/-- **The key is found first in the first parameter whose key ends in it.** -/
theorem firstOcc_query (hk : (61 : UInt8) ∉ k) (hand : (38 : UInt8) ∉ k) {p : Parmer} :
    ∀ {ps : List Parmer}, ps.find? (fun p => k.isSuffixOf p.key) = some p →
    k <:+ p.key ∧ ∃ front back, queryBytes ps = front ++ (p.bytes ++ back)
      ∧ ParmerStarts front ∧ ParmerEnds back
      ∧ List.IsFirstOcc (k ++ [61]) (queryBytes ps) (front.length + (p.key.length - k.length))
  | [], h => absurd h (by simp)
  | q :: ps, h => by
      by_cases hq : k <:+ q.key
      · -- the first one
        rw [List.find?_cons_of_pos (by simpa using hq)] at h
        obtain rfl := Option.some.inj h
        have hle := hq.length_le
        refine ⟨hq, [], ?_⟩
        by_cases hps : ps = []
        · subst hps
          refine ⟨[], by simp [queryBytes], Or.inl rfl, Or.inl rfl, ?_, ?_⟩
          · exact (occursAt_last hk q _).mpr ⟨hq, by simp; omega⟩
          · intro j hj hocc
            have := ((occursAt_last hk q j).mp hocc).2
            simp at hj
            omega
        · refine ⟨38 :: queryBytes ps, queryBytes_cons q hps, Or.inl rfl, Or.inr ⟨_, rfl⟩, ?_, ?_⟩
          · rw [queryBytes_cons q hps]
            exact (occursAt_parmer hk hand q _ _).mpr (Or.inl ⟨hq, by simp; omega⟩)
          · intro j hj hocc
            rw [queryBytes_cons q hps] at hocc
            simp only [List.length_nil, Nat.zero_add] at hj
            rcases (occursAt_parmer hk hand q _ j).mp hocc with ⟨_, heq⟩ | ⟨l, rfl, _⟩
            · omega
            · rw [Parmer.bytes, List.length_append] at hj
              omega
      · -- one further on
        rw [List.find?_cons_of_neg (by simpa using hq)] at h
        have hps : ps ≠ [] := by
          rintro rfl
          exact absurd h (by simp)
        obtain ⟨hp, front, back, heq, hfront, hback, hfirst⟩ := firstOcc_query hk hand h
        refine ⟨hp, q.bytes ++ 38 :: front, back, ?_, Or.inr ?_, hback, ?_⟩
        · rw [queryBytes_cons q hps, heq]
          simp
        · rcases hfront with rfl | ⟨s, rfl⟩
          · exact ⟨q.bytes, rfl⟩
          · exact ⟨q.bytes ++ 38 :: s, by simp⟩
        · have hshift : ∀ i, List.OccursAt (k ++ [61]) (queryBytes (q :: ps)) i
              ↔ ∃ j, i = q.bytes.length + 1 + j ∧ List.OccursAt (k ++ [61]) (queryBytes ps) j := by
            intro i
            rw [queryBytes_cons q hps, occursAt_parmer hk hand]
            exact or_iff_right fun h => hq h.1
          have hplace := hfirst.shift hshift
          rwa [← Nat.add_assoc, Nat.add_right_comm q.bytes.length, Nat.add_assoc q.bytes.length,
            ← List.length_cons, ← List.length_append] at hplace

end

/-! ## What is read as the value -/

/-- The query is what comes behind the first `?`. -/
theorem httpRequestGetUrlParmerStr_eq {r : HttpRequest} {path query : Bytes}
    (hget : httpRequestGetUrl r 1023 = some (path ++ 63 :: query))
    (hnul : (0 : UInt8) ∉ path ++ 63 :: query) (hpath : (63 : UInt8) ∉ path) :
    httpRequestGetUrlParmerStr r 1023 = some (63 :: query) := by
  unfold httpRequestGetUrlParmerStr
  rw [hget]
  dsimp only
  rw [strchr_append hnul hpath]
  dsimp only
  rw [List.drop_left]

/-- The byte in front of a match tells whether it starts a parameter. -/
theorem startsAt_iff_nil {front u back : Bytes} (hfront : ParmerStarts front)
    (hu : (38 : UInt8) ∉ u) :
    StartsAt (front ++ (u ++ back)) (front.length + u.length) ↔ u = [] := by
  constructor
  · rintro (hzero | hand)
    · exact List.length_eq_zero_iff.mp (by omega)
    · by_contra hne
      have hpos := List.length_pos_iff.mpr hne
      rw [List.getD_eq_getElem?_getD, List.getElem?_append_right (by omega),
        List.getElem?_append_left (by omega), List.getElem?_eq_getElem (by omega),
        Option.getD_some] at hand
      exact hu (hand ▸ List.getElem_mem _)
  · rintro rfl
    rcases hfront with rfl | ⟨s, rfl⟩
    · exact Or.inl rfl
    · refine Or.inr ?_
      simp

/-- **What is read** is what comes behind the first match, when that starts a parameter. -/
theorem httpRequestGetUrlParmerValue_of_url {r : HttpRequest} {path query k : Bytes} {keyLen : Int}
    (hget : httpRequestGetUrl r 1023 = some (path ++ 63 :: query))
    (hurl : (0 : UInt8) ∉ path ++ 63 :: query) (hfits : (path ++ 63 :: query).length < 1023)
    (hpath : (63 : UInt8) ∉ path) (hnul : (0 : UInt8) ∉ k) (hlen : k.length ≤ 60)
    (hkeyLen : 0 < keyLen) (valueBufSize : Int) :
    httpRequestGetUrlParmerValue r k keyLen valueBufSize
      = ((k ++ [61]).firstOcc query).bind fun i =>
          if StartsAt query i ∧ 0 < (valueBehind query k i).length
            ∧ ((valueBehind query k i).length : Int) ≤ valueBufSize
          then some (valueBehind query k i) else none := by
  have heq : lit "=" = [61] := by decide
  have hkey : (0 : UInt8) ∉ k ++ [61] := by simp [hnul]
  have hkeyLen' : (k ++ [61]).length = k.length + 1 := List.length_append
  have hquery : (0 : UInt8) ∉ query :=
    fun hmem => hurl (List.mem_append_right _ (List.mem_cons_of_mem _ hmem))
  have hqueryLen : query.length < 1023 := by
    rw [List.length_append, List.length_cons] at hfits
    omega
  have hsearch : straddr query (k ++ [61]) = (k ++ [61]).firstOcc query := by
    refine Option.ext fun i => ?_
    rw [List.firstOcc_eq_some_iff]
    refine straddr_noNul hquery hkey (by simp) ?_ ?_
    · unfold intMax
      omega
    · unfold intMax
      omega
  unfold httpRequestGetUrlParmerValue
  rw [httpRequestGetUrlParmerStr_eq hget hurl hpath, heq, snprintf_str_of_fits hkey (by omega)]
  dsimp only
  rw [List.head?_cons, if_pos rfl, List.drop_succ_cons, List.drop_zero, hsearch]
  cases hfind : (k ++ [61]).firstOcc query with
  | none => simp
  | some i =>
      have hle := (List.firstOcc_spec hfind).occurs.le (by simp)
      have hrest : (0 : UInt8) ∉ query.drop (i + (k.length + 1)) :=
        fun h0 => hquery (List.mem_of_mem_drop h0)
      have hpos : 0 < query.length := by omega
      have hiff : (i = 0 ∨ query.getD (i - 1) 0 = 38) ↔ StartsAt query i := Iff.rfl
      rw [Option.bind_some, hkeyLen', if_pos hpos]
      dsimp only
      rw [if_congr hiff rfl rfl]
      by_cases hroom : 0 < valueBufSize
      · rw [if_pos ⟨hkeyLen, hroom⟩]
        by_cases hstarts : StartsAt query i
        · rw [if_pos hstarts, valueBehind]
          rcases strchr_takeWhile hrest 38 with ⟨hend, hvalue⟩ | ⟨n, hend, hvalue, hn⟩
          · rw [hend, hvalue]
            dsimp only
            refine if_congr ?_ rfl rfl
            rw [and_iff_right hstarts]
            omega
          · rw [hend, hn]
            dsimp only
            rw [hvalue]
            refine if_congr ?_ rfl rfl
            rw [and_iff_right hstarts]
            omega
        · rw [if_neg hstarts, if_neg fun h => hstarts h.1]
      · -- there is no room for a byte
        rw [if_neg fun h => hroom h.2, if_neg]
        rintro ⟨_, hpos, hfits⟩
        omega

/-- The same for a URL that is what the request line says. -/
theorem httpRequestGetUrlParmerValue_query (h : RequestText) {path query k : Bytes} {keyLen : Int}
    (hurl : h.url = path ++ 63 :: query) (hpath : (63 : UInt8) ∉ path) (hnul : (0 : UInt8) ∉ k)
    (hlen : k.length ≤ 60) (hkeyLen : 0 < keyLen) (valueBufSize : Int) :
    httpRequestGetUrlParmerValue h.request k keyLen valueBufSize
      = ((k ++ [61]).firstOcc query).bind fun i =>
          if StartsAt query i ∧ 0 < (valueBehind query k i).length
            ∧ ((valueBehind query k i).length : Int) ≤ valueBufSize
          then some (valueBehind query k i) else none := by
  have hlarge := h.url_length
  have hget := h.getUrl 1023
  have hurlNul := h.url_token.noNul
  rw [if_pos (by omega), hurl] at hget
  rw [hurl] at hlarge hurlNul
  exact httpRequestGetUrlParmerValue_of_url hget hurlNul hlarge hpath hnul hlen hkeyLen valueBufSize

/-- What stands around the place where the key is found first. -/
structure ParmerPlace (query k : Bytes) (p : Parmer) (front u back : Bytes) : Prop where
  key_eq : u ++ k = p.key
  query_eq : query = front ++ (u ++ ((k ++ [61]) ++ (p.value ++ back)))
  starts : ParmerStarts front
  ends : ParmerEnds back
  first : List.IsFirstOcc (k ++ [61]) query (front.length + u.length)

theorem parmerPlace_query {k : Bytes} (hk : (61 : UInt8) ∉ k) (hand : (38 : UInt8) ∉ k) {p : Parmer}
    {ps : List Parmer} (h : ps.find? (fun p => k.isSuffixOf p.key) = some p) :
    ∃ front u back, ParmerPlace (queryBytes ps) k p front u back := by
  obtain ⟨⟨u, hu⟩, front, back, hbytes, hfront, hback, hfirst⟩ := firstOcc_query hk hand h
  have hulen : p.key.length - k.length = u.length := by
    rw [← hu, List.length_append]
    omega
  refine ⟨front, u, back, hu, ?_, hfront, hback, hulen ▸ hfirst⟩
  rw [hbytes, Parmer.bytes, ← hu]
  simp

namespace ParmerPlace

variable {query k front u back : Bytes} {p : Parmer}

theorem drop (h : ParmerPlace query k p front u back) :
    query.drop (front.length + u.length + (k.length + 1)) = p.value ++ back := by
  have hlen : (front ++ (u ++ (k ++ [61]))).length = front.length + u.length + (k.length + 1) := by
    simp only [List.length_append, List.length_singleton]
    omega
  have hquery : query = (front ++ (u ++ (k ++ [61]))) ++ (p.value ++ back) := by
    rw [h.query_eq]
    simp
  rw [hquery, ← hlen, List.drop_left]

/-- The match starts a parameter when the key is all of it. -/
theorem startsAt_iff (h : ParmerPlace query k p front u back) :
    StartsAt query (front.length + u.length) ↔ p.key = k := by
  have huand : (38 : UInt8) ∉ u := by
    intro hmem
    exact p.key_word.noAnd (h.key_eq ▸ List.mem_append_left _ hmem)
  rw [h.query_eq, startsAt_iff_nil h.starts huand, ← h.key_eq, List.append_left_eq_self]

end ParmerPlace

theorem takeWhile_value {v back : Bytes} (hand : (38 : UInt8) ∉ v) (hback : ParmerEnds back) :
    (v ++ back).takeWhile (· != 38) = v := by
  rw [takeWhile_ne_append hand]
  rcases hback with rfl | ⟨t, rfl⟩
  · exact List.append_nil v
  · rw [List.takeWhile_cons_of_neg (by simp), List.append_nil]

/-- **The value is that of the first parameter whose key ends in `k`, if it is all of the key.** -/
theorem httpRequestGetUrlParmerValue_eq (h : RequestText) {path k : Bytes} {ps : List Parmer}
    {keyLen : Int} (hurl : h.url = path ++ 63 :: queryBytes ps) (hpath : (63 : UInt8) ∉ path)
    (hk : (61 : UInt8) ∉ k) (hand : (38 : UInt8) ∉ k) (hnul : (0 : UInt8) ∉ k)
    (hlen : k.length ≤ 60) (hkeyLen : 0 < keyLen) (valueBufSize : Int) :
    httpRequestGetUrlParmerValue h.request k keyLen valueBufSize
      = (ps.find? fun p => k.isSuffixOf p.key).bind fun p =>
          if p.key = k ∧ (p.value.length : Int) ≤ valueBufSize then some p.value else none := by
  rw [httpRequestGetUrlParmerValue_query h hurl hpath hnul hlen hkeyLen]
  cases hfind : ps.find? fun p => k.isSuffixOf p.key with
  | none =>
      have hno : ∀ p ∈ ps, ¬ k <:+ p.key := by
        intro p hp
        simpa using List.find?_eq_none.mp hfind p hp
      rw [eq_none_of_iff (fun i => List.firstOcc_eq_some_iff) (not_occursAt_query hk hand hno)]
      rfl
  | some p =>
      obtain ⟨front, u, back, hplace⟩ := parmerPlace_query hk hand hfind
      have hvalue : valueBehind (queryBytes ps) k (front.length + u.length) = p.value := by
        rw [valueBehind, hplace.drop, takeWhile_value p.value_word.noAnd hplace.ends]
      rw [List.firstOcc_eq_some hplace.first, Option.bind_some, Option.bind_some, hvalue]
      refine if_congr ?_ rfl rfl
      rw [hplace.startsAt_iff, and_iff_right (List.length_pos_iff.mpr p.value_word.ne_nil)]

/-- Behind any `=` stands a value. -/
theorem drop_query : ∀ {ps : List Parmer} {i : Nat}, List.OccursAt [61] (queryBytes ps) i →
    ∃ p : Parmer, ∃ back, (queryBytes ps).drop (i + 1) = p.value ++ back ∧ ParmerEnds back
  | [], i, h => by
      have := h.le (by simp)
      rw [List.length_singleton] at this
      simp [queryBytes] at this
  | [p], i, h => by
      obtain ⟨_, hi⟩ := (occursAt_last (k := []) List.not_mem_nil p i).mp h
      obtain rfl : i = p.key.length := hi
      refine ⟨p, [], ?_, Or.inl rfl⟩
      rw [queryBytes, Parmer.bytes, drop_append_cons, List.append_nil]
  | p :: q :: ps, i, h => by
      rw [queryBytes_cons p (List.cons_ne_nil q ps)] at h ⊢
      rcases (occursAt_parmer (k := []) List.not_mem_nil List.not_mem_nil p _ i).mp h with
        ⟨_, hi⟩ | ⟨j, rfl, hj⟩
      · obtain rfl : i = p.key.length := hi
        refine ⟨p, 38 :: queryBytes (q :: ps), ?_, Or.inr ⟨_, rfl⟩⟩
        rw [Parmer.bytes, List.append_assoc, List.cons_append, drop_append_cons]
      · obtain ⟨r, back, hdrop, hback⟩ := drop_query hj
        refine ⟨r, back, ?_, hback⟩
        rw [← hdrop, Nat.add_assoc, ← List.drop_drop, drop_append_cons]

/-- No parameter is without a value. -/
theorem valueBehind_length_pos {ps : List Parmer} {k : Bytes} {i : Nat}
    (h : List.OccursAt (k ++ [61]) (queryBytes ps) i) :
    0 < (valueBehind (queryBytes ps) k i).length := by
  obtain ⟨p, back, hdrop, hback⟩ := drop_query h.behind
  rw [valueBehind, ← Nat.add_assoc, hdrop, takeWhile_value p.value_word.noAnd hback]
  exact List.length_pos_iff.mpr p.value_word.ne_nil

/-- What has no `=` and no `&` in it is found at the start of a parameter as its key only. -/
theorem StartsAt.key {ps : List Parmer} {k : Bytes} {i : Nat} (hk : (61 : UInt8) ∉ k)
    (hand : (38 : UInt8) ∉ k) (hfirst : List.IsFirstOcc (k ++ [61]) (queryBytes ps) i)
    (hstarts : StartsAt (queryBytes ps) i) : ∃ p ∈ ps, p.key = k := by
  cases hfind : ps.find? fun p => k.isSuffixOf p.key with
  | none =>
      have hno : ∀ p ∈ ps, ¬ k <:+ p.key := by
        intro p hp
        simpa using List.find?_eq_none.mp hfind p hp
      exact absurd hfirst.occurs (not_occursAt_query hk hand hno i)
  | some p =>
      obtain ⟨front, u, back, hplace⟩ := parmerPlace_query hk hand hfind
      obtain rfl := hfirst.unique hplace.first
      exact ⟨p, List.mem_of_find?_eq_some hfind, hplace.startsAt_iff.mp hstarts⟩

/-! ## The lookup -/

/-- What looking up `k` among the parameters of a query should give. -/
structure ParmerFound (ps : List Parmer) (k : Bytes) (result : Option Bytes) : Prop where
  found : ∀ p, ps.find? (fun p => p.key == k) = some p → result = some p.value
  missing : ps.find? (fun p => p.key == k) = none → result = none

/-- When the first key that ends in `k` is `k`, it is the first one that is. -/
theorem find?_key_of_suffix {ps : List Parmer} {k : Bytes} {p : Parmer}
    (h : ps.find? (fun p => k.isSuffixOf p.key) = some p) (hp : p.key = k) :
    ps.find? (fun p => p.key == k) = some p := by
  obtain ⟨_, pre, post, hps, hpre⟩ := List.find?_eq_some_iff_append.mp h
  refine List.find?_eq_some_iff_append.mpr ⟨by simpa using hp, pre, post, hps, ?_⟩
  intro q hq
  have hno := hpre q hq
  have hne : q.key ≠ k := by
    rintro rfl
    rw [ List.isSuffixOf_iff_suffix.mpr (List.suffix_refl _)] at hno
    exact absurd hno (by simp)
  simpa using hne

/-- A key that is there is found when no longer one in front of it ends in it. -/
theorem parmerFound_key_iff (h : RequestText) {path k : Bytes} {ps : List Parmer}
    {keyLen valueBufSize : Int} (hurl : h.url = path ++ 63 :: queryBytes ps)
    (hpath : (63 : UInt8) ∉ path) (hlen : k.length ≤ 60) (hkeyLen : 0 < keyLen) {p : Parmer}
    (hp : ps.find? (fun p => p.key == k) = some p)
    (hsize : (p.value.length : Int) ≤ valueBufSize) :
    httpRequestGetUrlParmerValue h.request k keyLen valueBufSize = some p.value
      ↔ ps.find? (fun p => k.isSuffixOf p.key) = some p := by
  have hkey : p.key = k := by simpa using List.find?_some hp
  have hword := hkey ▸ p.key_word
  rw [httpRequestGetUrlParmerValue_eq h hurl hpath hword.noEq hword.noAnd hword.noNul hlen hkeyLen]
  constructor
  · intro hres
    cases hsuffix : ps.find? fun p => k.isSuffixOf p.key with
    | none =>
        rw [hsuffix] at hres
        exact absurd hres (by simp)
    | some q =>
        rw [hsuffix, Option.bind_some] at hres
        split at hres
        · rename_i hexact
          rw [find?_key_of_suffix hsuffix hexact.1] at hp
          exact hp
        · exact absurd hres (by simp)
  · intro hfirst
    rw [hfirst, Option.bind_some, if_pos ⟨hkey, hsize⟩]

/-- Of what has no `=` and no `&` in it, as any key, a parameter is found if no longer key hides it,
and if there is none, nothing is. -/
theorem parmerFound_word_iff (h : RequestText) {path k : Bytes} {ps : List Parmer}
    {keyLen valueBufSize : Int} (hurl : h.url = path ++ 63 :: queryBytes ps)
    (hpath : (63 : UInt8) ∉ path) (hk : (61 : UInt8) ∉ k) (hand : (38 : UInt8) ∉ k)
    (hnul : (0 : UInt8) ∉ k) (hlen : k.length ≤ 60) (hkeyLen : 0 < keyLen)
    (hsize : ∀ p, ps.find? (fun p => p.key == k) = some p → (p.value.length : Int) ≤ valueBufSize) :
    ParmerFound ps k (httpRequestGetUrlParmerValue h.request k keyLen valueBufSize)
      ↔ ∀ p, ps.find? (fun p => p.key == k) = some p →
          ps.find? (fun p => k.isSuffixOf p.key) = some p := by
  constructor
  · rintro ⟨hfound, _⟩ p hp
    exact (parmerFound_key_iff h hurl hpath hlen hkeyLen hp (hsize p hp)).mp (hfound p hp)
  · intro hfirst
    refine ⟨?_, ?_⟩
    · intro p hp
      exact (parmerFound_key_iff h hurl hpath hlen hkeyLen hp (hsize p hp)).mpr (hfirst p hp)
    · intro hnone
      rw [httpRequestGetUrlParmerValue_query h hurl hpath hnul hlen hkeyLen]
      cases hi : (k ++ [61]).firstOcc (queryBytes ps) with
      | none => rfl
      | some i =>
          rw [Option.bind_some, if_neg]
          rintro ⟨hstarts, _⟩
          obtain ⟨p, hp, hkey⟩ := hstarts.key hk hand (List.firstOcc_spec hi)
          exact absurd (List.find?_eq_none.mp hnone p hp) (by simp [hkey])

/-- **The parameter is found, unless a longer key in front of it ends in its own**, and nothing is
found when there is none, unless what is looked up is itself text from the start of a parameter. -/
theorem parmerFound_iff (h : RequestText) (path k : Bytes) (ps : List Parmer)
    (keyLen valueBufSize : Int) (hurl : h.url = path ++ 63 :: queryBytes ps)
    (hpath : (63 : UInt8) ∉ path) (hnul : (0 : UInt8) ∉ k) (hlen : k.length ≤ 60)
    (hkeyLen : 0 < keyLen)
    (hsize : ∀ p, ps.find? (fun p => p.key == k) = some p → (p.value.length : Int) ≤ valueBufSize) :
    ParmerFound ps k (httpRequestGetUrlParmerValue h.request k keyLen valueBufSize)
      ↔ (∀ p, ps.find? (fun p => p.key == k) = some p →
            ps.find? (fun p => k.isSuffixOf p.key) = some p)
        ∧ (ps.find? (fun p => p.key == k) = none →
          ∀ i, (k ++ [61]).firstOcc (queryBytes ps) = some i → StartsAt (queryBytes ps) i →
            valueBufSize < (valueBehind (queryBytes ps) k i).length) := by
  have hquery := httpRequestGetUrlParmerValue_query h hurl hpath hnul hlen hkeyLen valueBufSize
  constructor
  · rintro ⟨hfound, hmissing⟩
    refine ⟨?_, ?_⟩
    · intro p hp
      exact (parmerFound_key_iff h hurl hpath hlen hkeyLen hp (hsize p hp)).mp (hfound p hp)
    · intro hnone i hi hstarts
      have hvalue := valueBehind_length_pos (List.firstOcc_spec hi).occurs
      rw [hmissing hnone, hi, Option.bind_some] at hquery
      by_contra hshort
      rw [if_pos ⟨hstarts, hvalue, by omega⟩] at hquery
      exact absurd hquery (by simp)
  · rintro ⟨hfirst, hlong⟩
    refine ⟨?_, ?_⟩
    · intro p hp
      exact (parmerFound_key_iff h hurl hpath hlen hkeyLen hp (hsize p hp)).mpr (hfirst p hp)
    · intro hnone
      rw [hquery]
      cases hi : (k ++ [61]).firstOcc (queryBytes ps) with
      | none => rfl
      | some i =>
          rw [Option.bind_some, if_neg]
          rintro ⟨hstarts, _, hfits⟩
          have := hlong hnone i hi hstarts
          omega

theorem IsWord.of_all {s : Bytes} (hne : s ≠ [])
    (h : (s.all fun c => !([13, 10, 0, 32, 63, 38, 61] : Bytes).contains c) = true) : IsWord s := by
  have hno : ∀ c ∈ ([13, 10, 0, 32, 63, 38, 61] : Bytes), c ∉ s := by
    intro c hc hmem
    have hnot := List.all_eq_true.mp h c hmem
    rw [List.contains_iff_mem.mpr hc] at hnot
    exact absurd hnot (by simp)
  exact ⟨⟨⟨hno 13 (by simp), hno 10 (by simp), hno 0 (by simp)⟩, hno 32 (by simp), hne⟩,
    hno 63 (by simp), hno 38 (by simp), hno 61 (by simp)⟩

/-- The first key ends in the second one. -/
def hiddenParmers : List Parmer :=
  [⟨lit "XHw", lit "b", .of_all (by decide) (by decide), .of_all (by decide) (by decide)⟩,
    ⟨lit "Hw", lit "c", .of_all (by decide) (by decide), .of_all (by decide) (by decide)⟩]

/-- `POST /index?XHw=b&Hw=c HTTP/1.1`. -/
def hiddenRequest : RequestText where
  method := lit "POST"
  spaces := 0
  url := lit "/index" ++ 63 :: queryBytes hiddenParmers
  version := lit "HTTP/1.1"
  fields := crlf
  method_token := post_isToken
  url_token := ⟨⟨by decide, by decide, by decide⟩, by decide, by decide⟩
  noNul := version_noNul
  fits := by decide

theorem parmerFound_iff_hidden :
    ParmerFound hiddenParmers (lit "Hw")
        (httpRequestGetUrlParmerValue hiddenRequest.request (lit "Hw") 2 31)
      ↔ (∀ p, hiddenParmers.find? (fun p => p.key == lit "Hw") = some p →
            hiddenParmers.find? (fun p => (lit "Hw").isSuffixOf p.key) = some p)
        ∧ (hiddenParmers.find? (fun p => p.key == lit "Hw") = none →
          ∀ i, (lit "Hw" ++ [61]).firstOcc (queryBytes hiddenParmers) = some i →
            StartsAt (queryBytes hiddenParmers) i →
            31 < ((valueBehind (queryBytes hiddenParmers) (lit "Hw") i).length : Int)) :=
  parmerFound_iff hiddenRequest (lit "/index") (lit "Hw") hiddenParmers 2 31 rfl (by decide)
    (by decide) (by decide) (by decide) fun p hp => by
      have hvalue : (hiddenParmers.find? fun p => p.key == lit "Hw").map Parmer.value
          = some (lit "c") := by
        decide
      rw [hp, Option.map_some, Option.some.injEq] at hvalue
      rw [hvalue]
      decide

theorem hiddenKey_missed :
    (hiddenParmers.find? fun p => p.key == lit "Hw").map Parmer.value = some (lit "c")
      ∧ httpRequestGetUrlParmerValue hiddenRequest.request (lit "Hw") 2 31 = none
      ∧ ¬ ParmerFound hiddenParmers (lit "Hw")
          (httpRequestGetUrlParmerValue hiddenRequest.request (lit "Hw") 2 31) := by
  have hvalue : (hiddenParmers.find? fun p => p.key == lit "Hw").map Parmer.value
      = some (lit "c") := by
    decide
  have hurl : hiddenRequest.url = lit "/index" ++ 63 :: queryBytes hiddenParmers := rfl
  have hnone : httpRequestGetUrlParmerValue hiddenRequest.request (lit "Hw") 2 31 = none := by
    rw [httpRequestGetUrlParmerValue_eq hiddenRequest hurl (by decide) (by decide) (by decide)
      (by decide) (by decide) (by decide)]
    decide
  refine ⟨hvalue, hnone, ?_⟩
  intro hfound
  obtain ⟨p, hp, _⟩ := Option.map_eq_some_iff.mp hvalue
  have hres := hfound.found p hp
  rw [hnone] at hres
  exact absurd hres (by simp)

end TraceServer
