import TraceServer.Lib.Cyclic
import TraceServer.Search

/-!
# Cutting and splicing strings (`user_string.c`)

These functions take their pieces out of a text, or put them into one, at the offsets that
`find_str` reports. `find_str` is `sunday`, with the `int`s of the source.

A buffer that is written into is a list of the length it has; `blit` is `memcpy` into it. Every
store asks whether the bytes are inside the buffer.
-/

namespace TraceServer

namespace UserString

/-- How a call comes out. -/
inductive StrEnd where
  /-- The return value, and the buffer that has been written into. -/
  | returns (ret : Int) (buf : Bytes)
  /-- A sum of `int`s in `find_str` has overflowed. -/
  | overflow
  /-- A byte outside of a buffer has been read or written. -/
  | outside
  | outOfFuel
deriving DecidableEq, Repr

/-- What is done with the offset a search returns. -/
def andThen (found : SundayEnd) (next : Int → StrEnd) : StrEnd :=
  match found with
  | .returns offset => next offset
  | .overflow => .overflow
  | .outOfFuel => .outOfFuel

/-- `find_str`. -/
def findStr (text : Bytes) (textLen : Nat) (patt : Bytes) (next : Int → StrEnd) : StrEnd :=
  andThen (sundayInt text textLen patt) next

/-- `memcpy(buf + off, data, len data)`, or the store of a byte. -/
def store (buf : Bytes) (off : Nat) (data : Bytes) (next : Bytes → StrEnd) : StrEnd :=
  if off + data.length ≤ buf.length then next (buf.blit off data) else .outside

/-! ## Taking a piece out -/

/-- What `substr` and `cutstr` have in common. The piece begins `skip` bytes behind the beginning of
`start`, and ends `tail` bytes behind the beginning of `fin`. -/
def copyBetween (skip tail : Nat) (text : Bytes) (textLen : Nat) (start fin buf : Bytes)
    (bufsize : Int) : StrEnd :=
  findStr text textLen (cstr start) fun offset =>
    if 0 ≤ offset then
      let titleStartAddr := offset.toNat + skip
      let findAddr := offset.toNat + strlen start
      findStr (text.drop findAddr) (textLen - findAddr) (cstr fin) fun offset =>
        if 0 ≤ offset then
          let titleEndAddr := findAddr + offset.toNat + tail
          let len := titleEndAddr - titleStartAddr
          if bufsize > len then
            store buf 0 ((text.drop titleStartAddr).take len) fun buf => .returns len buf
          else .returns (-1) buf
        else .returns (-1) buf
    else .returns (-1) buf

/-- `substr`: with the two markers. -/
def substr (text : Bytes) (textLen : Nat) (start fin buf : Bytes) (bufsize : Int) : StrEnd :=
  copyBetween 0 (strlen fin) text textLen start fin buf bufsize

/-- `cutstr`: without them. -/
def cutstr (text : Bytes) (textLen : Nat) (start fin buf : Bytes) (bufsize : Int) : StrEnd :=
  copyBetween (strlen start) 0 text textLen start fin buf bufsize

/-! ## Putting one in -/

/-- `pin` is copied to `addr`, and what stood from `backup` to the end of the text, which has been
saved before, behind it. -/
def splice (psrc : Bytes) (srcLen addr backup : Nat) (pin : Bytes) (ret : Int) : StrEnd :=
  let backupLen := srcLen - backup
  let backupBuff := (psrc.drop backup).take backupLen
  store psrc addr pin fun psrc =>
    let prebackupAddr := addr + pin.length
    store psrc prebackupAddr backupBuff fun psrc =>
      store psrc (prebackupAddr + backupLen) [0] fun psrc => .returns ret psrc

/-- `insert`. -/
def insert (psrc : Bytes) (srcLen : Nat) (psub pin : Bytes) : StrEnd :=
  findStr psrc srcLen psub fun offset =>
    if 0 ≤ offset then
      let pinsertAddr := offset.toNat + psub.length
      splice psrc srcLen pinsertAddr pinsertAddr pin offset
    else .returns (-1) psrc

/-- `repalce_with_pin`. -/
def repalceWithPin (psrc : Bytes) (srcLen : Nat) (psub pin : Bytes) : StrEnd :=
  findStr psrc srcLen psub fun offset =>
    if 0 ≤ offset then
      let preplaceAddr := offset.toNat
      splice psrc srcLen preplaceAddr (preplaceAddr + psub.length) pin 0
    else .returns (-1) psrc

/-! ## Line by line -/

/-- The end of `strline`. -/
def strlineEnd (j : Nat) (pdest : Bytes) : StrEnd :=
  store pdest j [0] fun pdest => .returns (if j = 0 then -1 else j) pdest

/-- The loop of `strline`, over the source from `psrc[i]` on; `i` and `j` are the same. -/
def strlineLoop (size : Int) : Bytes → Nat → Bytes → StrEnd
  | [], _, _ => .outside
  | c :: psrc, j, pdest =>
    if c = 0 then strlineEnd j pdest
    else
      store pdest j [c] fun pdest =>
        if ((j + 1 : Nat) : Int) = size - 1 ∨ c = 10 then strlineEnd (j + 1) pdest
        else strlineLoop size psrc (j + 1) pdest

/-- `strline`. -/
def strline (psrc pdest : Bytes) (size : Int) : StrEnd := strlineLoop size psrc 0 pdest

end UserString

end TraceServer
