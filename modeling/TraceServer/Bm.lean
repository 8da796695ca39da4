import TraceServer.Search

/-!
# Boyer–Moore search (`bm.c`)

`bm` and `bm_case` compare a window from its last byte down and move it by the greater of
two strides, one for the byte of the text that did not match, one for the place in the
pattern. The two searches differ in the comparison and share both tables.

A pointer is an offset that may leave its array, so every read goes through `byteAt`, and
a read outside of the array is an outcome of its own. So is a sum of `int`s that overflows.
-/

namespace TraceServer

/-- `*(buf + i)`. -/
def byteAt (buf : Bytes) (i : Int) : Option UInt8 := if 0 ≤ i then buf[i.toNat]? else none

/-! ## The tables -/

/-- `*(skip + *ptrn ++) = pLen --`, to the end of the pattern. -/
def makeSkipLoop : Nat → Bytes → (UInt8 → Nat) → UInt8 → Nat
  | _, [], skip => skip
  | pLen, c :: ptrn, skip => makeSkipLoop (pLen - 1) ptrn (Function.update skip c pLen)

/-- `MakeSkip`. -/
def makeSkip (ptrn : Bytes) : UInt8 → Nat := makeSkipLoop ptrn.length ptrn fun _ => ptrn.length

/-- `while (p1 >= ptrn && *p1 -- != c)`; the result is `p1`. -/
def shiftFind (ptrn : Bytes) (c : UInt8) : Nat → Int → Option Int
  | 0, _ => none
  | fuel + 1, p1 =>
    if 0 ≤ p1 then
      match byteAt ptrn p1 with
      | none => none
      | some b => if b ≠ c then shiftFind ptrn c fuel (p1 - 1) else some (p1 - 1)
    else some p1

/-- `while (p3 >= ptrn && *p3 -- == *p2 -- && p2 >= pptr)`; the result is `p3` and `p2`. -/
def shiftCompare (ptrn : Bytes) (pptr : Int) : Nat → Int → Int → Option (Int × Int)
  | 0, _, _ => none
  | fuel + 1, p3, p2 =>
    if 0 ≤ p3 then
      match byteAt ptrn p3, byteAt ptrn p2 with
      | some a, some b =>
        if a = b ∧ pptr ≤ p2 - 1 then shiftCompare ptrn pptr fuel (p3 - 1) (p2 - 1)
        else some (p3 - 1, p2 - 1)
      | _, _ => none
    else some (p3, p2)

/-- The `do … while` around the two; the result is `p2 - p3`. -/
def shiftScan (ptrn : Bytes) (c : UInt8) (pptr : Int) : Nat → Int → Option Int
  | 0, _ => none
  | fuel + 1, p1 => do
    let p1 ← shiftFind ptrn c (ptrn.length + 1) p1
    let (p3, p2) ← shiftCompare ptrn pptr (ptrn.length + 1) p1 (ptrn.length - 2)
    if 0 ≤ p3 ∧ pptr ≤ p2 then shiftScan ptrn c pptr fuel p1 else some (p2 - p3)

/-- `while (sptr -- != shift)`, with the offset of `sptr`; `pptr` has the same offset in the
pattern. The distance is put into an `int`. -/
def makeShiftLoop (ptrn : Bytes) (c : UInt8) : Nat → (Nat → Int) → Option (Nat → Int)
  | 0, shift => some shift
  | sptr + 1, shift => do
    let d ← shiftScan ptrn c sptr (ptrn.length + 1) (ptrn.length - 2)
    makeShiftLoop ptrn c sptr (Function.update shift sptr (toInt (ptrn.length - sptr + d)))

/-- `MakeShift`. -/
def makeShift (ptrn : Bytes) : Option (Nat → Int) := do
  let c ← byteAt ptrn (ptrn.length - 1)
  makeShiftLoop ptrn c (ptrn.length - 1) (Function.update (fun _ => 0) (ptrn.length - 1) 1)

/-! ## The search -/

/-- How a call of `bm` or `bm_case` comes out. -/
inductive BmEnd where
  | returns (ret : Int)
  /-- A sum of `int`s has overflowed. -/
  | overflow
  /-- A byte outside of an array has been read. -/
  | outside
  | outOfFuel
deriving DecidableEq, Repr

/-- How the comparison of a window comes out. -/
inductive BmWindow where
  /-- `return ret`. -/
  | hit (ret : Int)
  /-- `c` is `buf[b_idx]`, and does not match `ptrn[p_idx]`. -/
  | miss (c : UInt8) (bIdx pIdx : Int)
  | outside
  | outOfFuel
deriving DecidableEq, Repr

/-- The inner loop of `BMSearch`. -/
def bmWindow (cmp : UInt8 → UInt8 → Bool) (buf ptrn : Bytes) : Nat → Int → Int → BmWindow
  | 0, _, _ => .outOfFuel
  | fuel + 1, bIdx, pIdx =>
    match byteAt buf (bIdx - 1), byteAt ptrn (pIdx - 1) with
    | some b, some p =>
      if cmp b p then
        if bIdx - 1 < 0 then .hit (-1)
        else if pIdx - 1 = 0 then .hit (bIdx - 1)
        else bmWindow cmp buf ptrn fuel (bIdx - 1) (pIdx - 1)
      else .miss b (bIdx - 1) (pIdx - 1)
    | _, _ => .outside

/-- The outer loop. -/
def bmSearchLoop (cmp : UInt8 → UInt8 → Bool) (buf : Bytes) (blen : Int) (ptrn : Bytes)
    (skip : UInt8 → Nat) (shift : Nat → Int) : Nat → Int → BmEnd
  | 0, _ => .outOfFuel
  | fuel + 1, bIdx =>
    if bIdx ≤ blen then
      match bmWindow cmp buf ptrn (ptrn.length + 1) bIdx ptrn.length with
      | .hit ret => .returns ret
      | .miss c bIdx pIdx =>
        let bIdx := bIdx + max (skip c : Int) (shift pIdx.toNat)
        if bIdx ≤ intMax then bmSearchLoop cmp buf blen ptrn skip shift fuel bIdx else .overflow
      | .outside => .outside
      | .outOfFuel => .outOfFuel
    else .returns (-1)

/-- `BMSearch` with the comparison `cmp`. -/
def bmSearchBy (cmp : UInt8 → UInt8 → Bool) (buf : Bytes) (blen : Int) (ptrn : Bytes)
    (skip : UInt8 → Nat) (shift : Nat → Int) : BmEnd :=
  if ptrn.length = 0 then .returns (-1)
  else bmSearchLoop cmp buf blen ptrn skip shift (blen.toNat + 1) ptrn.length

/-- `BMSearch`. -/
def bmSearch : Bytes → Int → Bytes → (UInt8 → Nat) → (Nat → Int) → BmEnd := bmSearchBy (· == ·)

/-- `BMSearch_case`. -/
def bmSearchCase : Bytes → Int → Bytes → (UInt8 → Nat) → (Nat → Int) → BmEnd := bmSearchBy bmCmp

/-- `bm` around the search `search`. A pattern of one byte goes to `strchr`, which finds the
terminator when the byte is a NUL. -/
def bmBy (search : Bytes → Int → Bytes → (UInt8 → Nat) → (Nat → Int) → BmEnd) (psrc : Bytes)
    (srcLen : Int) (pfind : Bytes) : BmEnd :=
  match pfind with
  | [] => .returns (-1)
  | [c] => .returns ((if c = 0 then some (strlen psrc) else strchr psrc c).elim (-1) fun p => (p : Int))
  | _ =>
    match makeShift pfind with
    | none => .outside
    | some shift =>
      match search psrc srcLen pfind (makeSkip pfind) shift with
      | .returns offset => .returns (if offset < 0 then -1 else offset)
      | ends => ends

/-- `bm`. -/
def bm : Bytes → Int → Bytes → BmEnd := bmBy bmSearch

/-- `bm_case`. -/
def bmCase : Bytes → Int → Bytes → BmEnd := bmBy bmSearchCase

end TraceServer
