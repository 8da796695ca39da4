import TraceServer.UserString
import TraceServer.Proof.Sunday

/-!
# What is cut out of a text, and what is put into it

`cutstr` and `substr` search twice, the second time from behind the first match, and `insert` and
`repalce_with_pin` search once and move the rest of the text. Each of these is right where
`sunday` is: for texts and patterns that are shorter than `INT_MAX`.
-/

namespace TraceServer

namespace UserString

/-! ## Searching -/

section FindStr

variable {text more patt : Bytes}

theorem findStr_found (hp : patt ≠ []) (hmax : (text.length : Int) < intMax)
    (hpmax : (patt.length : Int) < intMax) {i : Nat} (h : List.IsFirstOcc patt text i)
    (next : Int → StrEnd) : findStr (text ++ more) text.length patt next = next i := by
  have hle : text.length ≤ (text ++ more).length := by simp
  obtain ⟨ret, hfinds, hret⟩ := sundayInt_finds hle hp hmax hpmax
  rw [List.take_left] at hfinds
  rw [findStr, hret, (hfinds.hit i).mpr h]
  rfl

theorem findStr_missing (hp : patt ≠ []) (hmax : (text.length : Int) < intMax)
    (hpmax : (patt.length : Int) < intMax) (h : ∀ i, ¬ List.OccursAt patt text i)
    (next : Int → StrEnd) : findStr (text ++ more) text.length patt next = next (-1) := by
  have hle : text.length ≤ (text ++ more).length := by simp
  obtain ⟨ret, hfinds, hret⟩ := sundayInt_finds hle hp hmax hpmax
  rw [List.take_left] at hfinds
  rw [findStr, hret, hfinds.miss.mpr h]
  rfl

end FindStr

/-! ## Taking a piece out -/

/-- `cut` stands between the first `s` of a text and the first `f` behind that. -/
def Between (text s f cut : Bytes) : Prop :=
  ∃ a b, text = a ++ (s ++ (cut ++ (f ++ b))) ∧ List.IsFirstOcc s text a.length
    ∧ List.IsFirstOcc f (cut ++ (f ++ b)) cut.length

/-- There is only one such piece. -/
theorem Between.unique {text s f cut cut' : Bytes} (h : Between text s f cut)
    (h' : Between text s f cut') : cut = cut' := by
  obtain ⟨a, b, htext, hs, hf⟩ := h
  obtain ⟨a', b', htext', hs', hf'⟩ := h'
  have hlen : a.length = a'.length := hs.unique hs'
  obtain ⟨_, hrest⟩ := List.append_inj (htext.symm.trans htext') hlen
  have hbehind := List.append_cancel_left hrest
  rw [hbehind] at hf
  exact (List.append_inj hbehind (hf.unique hf')).1

section Copy

variable {text more start fin buf : Bytes} {bufsize : Int}

/-- The piece that is copied where both markers are found. -/
theorem copyBetween_between {skip tail : Nat} {cut a b : Bytes} (piece rest : Bytes)
    (hstart : cstr start ≠ []) (hfin : cstr fin ≠ []) (hmax : (text.length : Int) < intMax)
    (hsmax : (strlen start : Int) < intMax) (hfmax : (strlen fin : Int) < intMax)
    (htext : text = a ++ (cstr start ++ (cut ++ (cstr fin ++ b))))
    (hs : List.IsFirstOcc (cstr start) text a.length)
    (hf : List.IsFirstOcc (cstr fin) (cut ++ (cstr fin ++ b)) cut.length)
    (hpiece : (cstr start ++ (cut ++ (cstr fin ++ b))).drop skip = piece ++ rest)
    (hlen : strlen start + cut.length + tail = skip + piece.length) :
    copyBetween skip tail (text ++ more) text.length start fin buf bufsize
      = if bufsize > piece.length then store buf 0 piece fun buf => .returns piece.length buf
        else .returns (-1) buf := by
  have hlens : text.length = a.length + strlen start + (cut ++ (cstr fin ++ b)).length := by
    rw [htext, List.length_append, List.length_append, strlen]
    omega
  -- what is left of the text behind the first match
  have hbehind : (text ++ more).drop (a.length + strlen start)
      = cut ++ (cstr fin ++ b) ++ more := by
    rw [htext, strlen, ← List.append_assoc a, ← List.length_append, List.append_assoc _ _ more,
      List.drop_left]
  have hpiece' : ((text ++ more).drop (a.length + skip)).take piece.length = piece := by
    rw [← List.drop_drop, htext, List.append_assoc a, List.drop_left, List.drop_append, hpiece,
      List.append_assoc, List.take_left]
  unfold copyBetween
  rw [findStr_found hstart hmax hsmax hs]
  simp only [Int.natCast_nonneg, if_true, Int.toNat_natCast]
  have hleft : text.length - (a.length + strlen start) = (cut ++ (cstr fin ++ b)).length := by omega
  rw [hbehind, hleft, findStr_found hfin (by omega) hfmax hf]
  simp only [Int.natCast_nonneg, if_true, Int.toNat_natCast]
  rw [show a.length + strlen start + cut.length + tail - (a.length + skip) = piece.length by omega,
    hpiece']

/-- Nothing is copied where one of the markers is missing. -/
theorem copyBetween_none {skip tail : Nat} (hstart : cstr start ≠ []) (hfin : cstr fin ≠ [])
    (hmax : (text.length : Int) < intMax) (hsmax : (strlen start : Int) < intMax)
    (hfmax : (strlen fin : Int) < intMax)
    (hnone : ∀ cut, ¬ Between text (cstr start) (cstr fin) cut) :
    copyBetween skip tail (text ++ more) text.length start fin buf bufsize
      = .returns (-1) buf := by
  unfold copyBetween
  by_cases hocc : ∃ i, List.OccursAt (cstr start) text i
  · obtain ⟨i, hs⟩ := List.exists_isFirstOcc hocc
    obtain ⟨a, u, htext, rfl⟩ := hs.occurs.split hstart
    have hbehind : (text ++ more).drop (a.length + strlen start) = u ++ more := by
      rw [htext, strlen, ← List.append_assoc a, ← List.length_append, List.append_assoc _ _ more,
        List.drop_left]
    have hlens : text.length = a.length + strlen start + u.length := by
      rw [htext, List.length_append, List.length_append, strlen]
      omega
    -- a second marker would make a piece
    have hmissing : ∀ j, ¬ List.OccursAt (cstr fin) u j := by
      intro j hj
      obtain ⟨k, hk⟩ := List.exists_isFirstOcc ⟨j, hj⟩
      obtain ⟨cut, b, rfl, rfl⟩ := hk.occurs.split hfin
      exact hnone cut ⟨a, b, htext, hs, hk⟩
    rw [findStr_found hstart hmax hsmax hs]
    simp only [Int.natCast_nonneg, if_true, Int.toNat_natCast]
    rw [hbehind, show text.length - (a.length + strlen start) = u.length by omega,
      findStr_missing hfin (by omega) hfmax hmissing]
    exact if_neg (by decide)
  · rw [findStr_missing hstart hmax hsmax fun i hi => hocc ⟨i, hi⟩]
    exact if_neg (by decide)

/-- A piece that is shorter than the buffer is put at its beginning. -/
theorem copy_fits {piece : Bytes} (hbuf : bufsize ≤ buf.length)
    (hfits : (piece.length : Int) < bufsize) :
    (if bufsize > piece.length then store buf 0 piece fun buf => .returns piece.length buf
      else .returns (-1) buf) = .returns piece.length (piece ++ buf.drop piece.length) := by
  rw [if_pos hfits, store, if_pos (by omega), List.blit_zero]

end Copy

/-- **`cutstr` returns what stands between the markers**, and `substr` the same with the markers,
for a text and markers shorter than `INT_MAX`. -/
theorem cutstr_between (text more start fin buf : Bytes) (bufsize : Int) (hstart : cstr start ≠ [])
    (hfin : cstr fin ≠ []) (hmax : (text.length : Int) < intMax)
    (hsmax : (strlen start : Int) < intMax) (hfmax : (strlen fin : Int) < intMax)
    (hbuf : bufsize ≤ buf.length) :
    ∃ ret out, cutstr (text ++ more) text.length start fin buf bufsize = .returns ret out
      ∧ (∀ cut, Between text (cstr start) (cstr fin) cut → (cut.length : Int) < bufsize →
        ret = cut.length ∧ out = cut ++ buf.drop cut.length)
      ∧ ((∀ cut, Between text (cstr start) (cstr fin) cut → bufsize ≤ cut.length) →
        ret = -1 ∧ out = buf)
      ∧ ∀ len whole, substr (text ++ more) text.length start fin buf bufsize = .returns len whole →
        0 ≤ len → 0 ≤ ret ∧ len = strlen start + ret + strlen fin
          ∧ whole.take len.toNat = cstr start ++ out.take ret.toNat ++ cstr fin := by
  by_cases hex : ∃ cut, Between text (cstr start) (cstr fin) cut
  · obtain ⟨cut, hcut⟩ := hex
    obtain ⟨a, b, htext, hs, hf⟩ := id hcut
    have hinner : cutstr (text ++ more) text.length start fin buf bufsize = _ :=
      copyBetween_between cut (cstr fin ++ b) hstart hfin hmax hsmax hfmax htext hs hf
        List.drop_left (by omega)
    have houter : substr (text ++ more) text.length start fin buf bufsize = _ :=
      copyBetween_between (cstr start ++ cut ++ cstr fin) b hstart hfin hmax hsmax hfmax htext hs hf
        (by simp) (by simp only [List.length_append, strlen]; omega)
    have hwhole : ((cstr start ++ cut ++ cstr fin).length : Int)
        = strlen start + cut.length + strlen fin := by
      simp only [List.length_append, strlen]
      omega
    by_cases hfits : (cut.length : Int) < bufsize
    · rw [copy_fits hbuf hfits] at hinner
      refine ⟨_, _, hinner, ?_, ?_, ?_⟩
      · intro cut' hcut' _
        rw [hcut'.unique hcut]
        exact ⟨rfl, rfl⟩
      · intro hshort
        exact absurd (hshort cut hcut) (by omega)
      · intro len whole hsub hlen
        by_cases hfits' : ((cstr start ++ cut ++ cstr fin).length : Int) < bufsize
        · rw [copy_fits hbuf hfits', hsub] at houter
          obtain ⟨rfl, rfl⟩ := StrEnd.returns.inj houter
          refine ⟨Int.natCast_nonneg _, hwhole, ?_⟩
          rw [Int.toNat_natCast, Int.toNat_natCast, List.take_left, List.take_left]
        · rw [if_neg hfits', hsub] at houter
          obtain ⟨rfl, _⟩ := StrEnd.returns.inj houter
          exact absurd hlen (by decide)
    · rw [if_neg hfits] at hinner
      rw [if_neg (by omega)] at houter
      refine ⟨_, _, hinner, ?_, fun _ => ⟨rfl, rfl⟩, ?_⟩
      · intro cut' hcut' hfits'
        rw [hcut'.unique hcut] at hfits'
        exact absurd hfits' hfits
      · intro len whole hsub hlen
        obtain ⟨rfl, _⟩ := StrEnd.returns.inj (hsub.symm.trans houter)
        exact absurd hlen (by decide)
  · have hnone : ∀ cut, ¬ Between text (cstr start) (cstr fin) cut :=
      fun cut hcut => hex ⟨cut, hcut⟩
    refine ⟨-1, buf, copyBetween_none hstart hfin hmax hsmax hfmax hnone,
      fun cut hcut => absurd hcut (hnone cut), fun _ => ⟨rfl, rfl⟩, ?_⟩
    intro len whole hsub hlen
    obtain ⟨rfl, _⟩ := StrEnd.returns.inj
      (hsub.symm.trans (copyBetween_none hstart hfin hmax hsmax hfmax hnone))
    exact absurd hlen (by decide)

/-- The piece between two tags. -/
theorem cutstr_between_tags :
    cutstr (lit "x<a>bc</a>" ++ [0]) (lit "x<a>bc</a>").length (lit "<a>" ++ [0])
        (lit "</a>" ++ [0]) (List.replicate 8 0) 8
      = .returns 2 (lit "bc" ++ List.replicate 6 0) := by
  have hbetween : Between (lit "x<a>bc</a>") (cstr (lit "<a>" ++ [0])) (cstr (lit "</a>" ++ [0]))
      (lit "bc") :=
    ⟨lit "x", [], by decide, List.firstOcc_spec (by decide), List.firstOcc_spec (by decide)⟩
  obtain ⟨ret, out, hcut, hin, _⟩ := cutstr_between (lit "x<a>bc</a>") [0] (lit "<a>" ++ [0])
    (lit "</a>" ++ [0]) (List.replicate 8 0) 8 (by decide) (by decide) (by decide) (by decide)
    (by decide) (by decide)
  obtain ⟨rfl, rfl⟩ := hin (lit "bc") hbetween (by decide)
  exact hcut

/-- In a text of `INT_MAX` zeros no marker is found, and none is not found. -/
theorem cutstr_overflows :
    ¬ ∃ ret out, cutstr (List.replicate 2147483647 0 ++ [0])
      (List.replicate 2147483647 (0 : UInt8)).length [1, 0] [1, 0] (List.replicate 8 0) 8
        = .returns ret out := by
  rintro ⟨ret, out, hret⟩
  have hmark : cstr [1, 0] = [1] := by decide
  rw [cutstr, copyBetween, findStr, hmark, sundayInt_zeros] at hret
  exact StrEnd.noConfusion hret

/-! ## Putting one in -/

/-- A buffer that begins with a string and its NUL, and is as it was behind them. -/
def withString (psrc s : Bytes) : Bytes := s ++ 0 :: psrc.drop (s.length + 1)

/-- **The splice**: the new piece, the rest of the text and a NUL, one behind the other. -/
theorem splice_eq {psrc pin tail : Bytes} {srcLen addr backup : Nat} (ret : Int)
    (htail : (psrc.drop backup).take (srcLen - backup) = tail)
    (hlen : srcLen - backup = tail.length) (hroom : addr + pin.length + tail.length < psrc.length) :
    splice psrc srcLen addr backup pin ret
      = .returns ret (psrc.blit addr (pin ++ tail ++ [0])) := by
  have hboth : addr + (pin ++ tail).length ≤ psrc.length := by
    rw [List.length_append]
    omega
  have hend : addr + pin.length + tail.length = addr + (pin ++ tail).length := by
    rw [List.length_append, Nat.add_assoc]
  unfold splice store
  dsimp only
  rw [htail, hlen, if_pos (by omega), List.length_blit (by omega), if_pos (by omega),
    List.blit_append (by omega), hend, List.length_blit hboth, List.length_singleton,
    if_pos (by rw [List.length_append]; omega), List.blit_append hboth]

/-- A string is in the buffer when its end and a NUL have been put behind its beginning. -/
theorem blit_withString (front more data : Bytes) :
    (front ++ more).blit front.length (data ++ [0])
      = withString (front ++ more) (front ++ data) := by
  rw [List.blit, List.take_left, withString, List.length_append, List.length_singleton,
    List.length_append, ← Nat.add_assoc]
  simp only [List.append_assoc, List.singleton_append]

section Splice

variable {A B rest psub : Bytes}

/-- The rest of the text behind the match. -/
theorem backup_eq : ((A ++ (psub ++ B) ++ rest).drop (A.length + psub.length)).take
    ((A ++ (psub ++ B)).length - (A.length + psub.length)) = B := by
  have hlen : (A ++ (psub ++ B)).length - (A.length + psub.length) = B.length := by
    simp only [List.length_append]
    omega
  rw [hlen, ← List.append_assoc A, ← List.length_append, List.append_assoc _ _ rest,
    List.drop_left, List.take_left]

variable (pin : Bytes) (hsub : psub ≠ []) (hmax : ((A ++ (psub ++ B)).length : Int) < intMax)
  (hsmax : (psub.length : Int) < intMax) (hfirst : List.IsFirstOcc psub (A ++ (psub ++ B)) A.length)

include hsub hmax hsmax hfirst

/-- `insert` where `psub` is found. -/
theorem insert_found (hroom : (A ++ psub ++ pin ++ B).length < (A ++ (psub ++ B) ++ rest).length) :
    insert (A ++ (psub ++ B) ++ rest) (A ++ (psub ++ B)).length psub pin
      = .returns A.length (withString (A ++ (psub ++ B) ++ rest) (A ++ psub ++ pin ++ B)) := by
  have hpsrc : A ++ (psub ++ B) ++ rest = (A ++ psub) ++ (B ++ rest) := by
    simp only [List.append_assoc]
  simp only [List.length_append] at hroom
  unfold insert
  rw [findStr_found hsub hmax hsmax hfirst]
  simp only [Int.natCast_nonneg, if_true, Int.toNat_natCast]
  rw [splice_eq _ backup_eq (by simp only [List.length_append]; omega)
    (by simp only [List.length_append]; omega), hpsrc, ← List.length_append, blit_withString,
    List.append_assoc (A ++ psub)]

/-- `repalce_with_pin` where `psub` is found. -/
theorem repalceWithPin_found (hroom : (A ++ pin ++ B).length < (A ++ (psub ++ B) ++ rest).length) :
    repalceWithPin (A ++ (psub ++ B) ++ rest) (A ++ (psub ++ B)).length psub pin
      = .returns 0 (withString (A ++ (psub ++ B) ++ rest) (A ++ pin ++ B)) := by
  simp only [List.length_append] at hroom
  unfold repalceWithPin
  rw [findStr_found hsub hmax hsmax hfirst]
  simp only [Int.natCast_nonneg, if_true, Int.toNat_natCast]
  rw [splice_eq _ backup_eq (by simp only [List.length_append]; omega)
    (by simp only [List.length_append]; omega), List.append_assoc A (psub ++ B), blit_withString,
    List.append_assoc A pin]

end Splice

/-- **The two splices**, for a text and a pattern shorter than `INT_MAX`. -/
theorem splice_right (T rest psub pin : Bytes) (hsub : psub ≠ []) (hmax : (T.length : Int) < intMax)
    (hsmax : (psub.length : Int) < intMax) :
    (∀ A B, T = A ++ (psub ++ B) → List.IsFirstOcc psub T A.length →
        ((A ++ psub ++ pin ++ B).length < (T ++ rest).length →
          insert (T ++ rest) T.length psub pin
              = .returns A.length (withString (T ++ rest) (A ++ psub ++ pin ++ B))
            ∧ repalceWithPin (T ++ rest) T.length psub (psub ++ pin)
              = .returns 0 (withString (T ++ rest) (A ++ psub ++ pin ++ B)))
        ∧ ((A ++ pin ++ B).length < (T ++ rest).length →
          repalceWithPin (T ++ rest) T.length psub pin
            = .returns 0 (withString (T ++ rest) (A ++ pin ++ B))))
      ∧ ((∀ i, ¬ List.OccursAt psub T i) →
        insert (T ++ rest) T.length psub pin = .returns (-1) (T ++ rest)
          ∧ repalceWithPin (T ++ rest) T.length psub pin = .returns (-1) (T ++ rest)) := by
  constructor
  · rintro A B rfl hfirst
    refine ⟨?_, repalceWithPin_found pin hsub hmax hsmax hfirst⟩
    intro hroom
    refine ⟨insert_found pin hsub hmax hsmax hfirst hroom, ?_⟩
    have hwith := @repalceWithPin_found A B rest psub (psub ++ pin) hsub hmax hsmax hfirst
    rw [← List.append_assoc A psub pin] at hwith
    exact hwith hroom
  · intro hnone
    unfold insert repalceWithPin
    rw [findStr_missing hsub hmax hsmax hnone, findStr_missing hsub hmax hsmax hnone]
    exact ⟨if_neg (by decide), if_neg (by decide)⟩

/-- One byte is put behind the equals sign. -/
theorem splice_right_equals :
    insert (lit "a=b" ++ List.replicate 5 0) (lit "a=b").length (lit "=") (lit ">")
        = .returns 1 (lit "a=>b" ++ List.replicate 4 0)
      ∧ repalceWithPin (lit "a=b" ++ List.replicate 5 0) (lit "a=b").length (lit "=")
          (lit "=" ++ lit ">")
        = .returns 0 (lit "a=>b" ++ List.replicate 4 0) :=
  ((splice_right (lit "a=b") (List.replicate 5 0) (lit "=") (lit ">") (by decide) (by decide)
    (by decide)).1 (lit "a") (lit "b") (by decide) (List.firstOcc_spec (by decide))).1 (by decide)

/-- In `INT_MAX` zeros there is no one, and `insert` does not say so. -/
theorem splice_overflows :
    (∀ i, ¬ List.OccursAt [1] (List.replicate 2147483647 (0 : UInt8)) i)
      ∧ insert (List.replicate 2147483647 0 ++ [0]) (List.replicate 2147483647 (0 : UInt8)).length
          [1] []
        ≠ .returns (-1) (List.replicate 2147483647 0 ++ [0]) := by
  constructor
  · intro i hocc
    obtain ⟨_, hmem⟩ := hocc.isInfix.subset (List.mem_singleton.mpr rfl) |> List.mem_replicate.mp
    exact absurd hmem (by decide)
  · rw [insert, findStr, sundayInt_zeros]
    exact StrEnd.noConfusion

end UserString

end TraceServer
