import TraceServer.Search

/-!
# The request and what is read from its header (`http_request.c`)

`httpRequest_t` is two buffers and three counters. The functions here only read the
header: they find the URL in the request line, a parameter in the URL's query, a
field by its name. Each returns the string it leaves in the caller's zeroed buffer,
or `none` for `false`. Receiving is in `HttpRecv.lean`.

A pointer into a string is the rest of the string from there on, or an offset.
-/

namespace TraceServer

def httpRequestHeaderBufSize : Nat := 1024

/-- `httpRequest_t`. `contextBuf` is `none` while it is `NULL`. -/
structure HttpRequest where
  header : Bytes
  headerLen : Int
  contextBuf : Option Bytes
  contextLen : Int
  dataLen : Int
deriving DecidableEq

/-- As `calloc` leaves it. -/
def HttpRequest.zero : HttpRequest where
  header := List.replicate httpRequestHeaderBufSize 0
  headerLen := 0
  contextBuf := none
  contextLen := 0
  dataLen := 0

/-- As it stands when `line` has been received into it. -/
def HttpRequest.ofHeader (line : Bytes) : HttpRequest :=
  { HttpRequest.zero with
    header := line ++ List.replicate (httpRequestHeaderBufSize - line.length) 0
    headerLen := line.length }

/-- `httpRequest_result_t`. -/
inductive HttpRequestResult where
  | headerBufFull
  | headerRecvSuccess
  | contextRecvSuccess
  | recvEmpty
  | socketError
deriving DecidableEq, Repr

def crlf : Bytes := lit "\r\n"

/-- `for ( ; p <= q && *p == ' '; p ++)`: at most `n` spaces are skipped. -/
def skipSpaces : Nat → Bytes → Bytes
  | n + 1, c :: p => if c = 32 then skipSpaces n p else c :: p
  | _, p => p

/-- `_httpRequest_get_url`. -/
def httpRequestGetUrl (r : HttpRequest) (bufSize : Int) : Option Bytes :=
  if 0 < r.headerLen ∧ 0 < bufSize then
    match strchr r.header 32 with
    | none => none
    | some i =>
      let p := (cstr r.header).drop (i + 1)
      match straddr p crlf with
      | none => none
      | some q =>
        let p := skipSpaces (q + 1) p
        match strchr p 32 with
        | none => none
        | some n => if 0 < n ∧ min (n : Int) (bufSize - 1) = n then some (p.take n) else none
  else none

/-- `_httpRequest_get_url_parmer`: the URL from its `?` on. -/
def httpRequestGetUrlParmerStr (r : HttpRequest) (bufSize : Int) : Option Bytes :=
  match httpRequestGetUrl r bufSize with
  | none => none
  | some url =>
    match strchr url 63 with
    | none => none
    | some i => some (url.drop i)

/-- `httpRequest_get_url_parmer_value`. -/
def httpRequestGetUrlParmerValue (r : HttpRequest) (parmerKey : Bytes) (parmerKeyLen : Int)
    (valueBufSize : Int) : Option Bytes :=
  if 0 < parmerKeyLen ∧ 0 < valueBufSize then
    match httpRequestGetUrlParmerStr r 1023 with
    | none => none
    | some buf =>
      let p := if buf.head? = some 63 then buf.drop 1 else buf
      if 0 < p.length then
        let key := (snprintf 64 63 (parmerKey ++ lit "=")).str
        match straddr p key with
        | none => none
        | some q =>
          if q = 0 ∨ p.getD (q - 1) 0 = 38 then
            let rest := p.drop (q + key.length)
            match strchr rest 38 with
            | some n =>
              if 0 < n ∧ min (n : Int) valueBufSize = n then some (rest.take n) else none
            | none =>
              if 0 < rest.length ∧ min (rest.length : Int) valueBufSize = rest.length then
                some rest
              else none
          else none
      else none
  else none

/-- `httpRequest_get_url_path`. -/
def httpRequestGetUrlPath (r : HttpRequest) (bufSize : Int) : Option Bytes :=
  match httpRequestGetUrl r bufSize with
  | none => none
  | some url =>
    match strchr url 63 with
    | none => some url
    | some i => some (url.take i)

/-- The spaces a value ends in become NULs. -/
def trimTrailing (s : Bytes) : Bytes := (s.reverse.dropWhile (· == 32)).reverse

/-- `httpRequest_find_field`. -/
def httpRequestFindField (r : HttpRequest) (find : Bytes) (valueBufSize : Int) : Option Bytes :=
  if 0 < r.headerLen ∧ 0 < strlen find ∧ strlen find < 255 - 10 ∧ 0 < valueBufSize then
    let findStr := crlf ++ cstr find ++ lit ":"
    match straddrCase r.header (snprintf 255 254 findStr).str with
    | none => none
    | some i =>
      let p := (cstr r.header).drop (i + findStr.length)
      match straddr p crlf with
      | none => none
      | some q =>
        if (q : Int) < valueBufSize then some (trimTrailing ((p.take q).dropWhile (· == 32)))
        else none
  else none

/-- `for (i = q - p - 1; i >= 0; i --)`: spaces before place `i` become NULs. -/
def trimLoop : Nat → Bytes → Bytes
  | 0, valueBuf => valueBuf
  | i + 1, valueBuf =>
    if valueBuf.getD i 0 ≠ 32 then valueBuf else trimLoop i (valueBuf.set i 0)

/-- What `httpRequest_find_field` returns and leaves in `value_buf`. -/
structure FieldOut where
  ret : Bool
  valueBuf : Bytes

/-- `httpRequest_find_field`, with the stores it makes. -/
def httpRequestFindFieldBuf (r : HttpRequest) (find valueBuf : Bytes) (valueBufSize : Int) :
    FieldOut :=
  if 0 < r.headerLen ∧ 0 < strlen find ∧ strlen find < 255 - 10 ∧ 0 < valueBufSize then
    let findStr := crlf ++ cstr find ++ lit ":"
    match straddrCase r.header (snprintf 255 254 findStr).str with
    | none => ⟨false, valueBuf⟩
    | some i =>
      let p := (cstr r.header).drop (i + findStr.length)
      match straddr p crlf with
      | none => ⟨false, valueBuf⟩
      | some q =>
        if (q : Int) < valueBufSize then
          let p := (p.take q).dropWhile (· == 32)
          -- `memcpy(value_buf, p, q - p)`, then `value_buf[q - p] = '\0'`
          let copied := p ++ valueBuf.drop p.length
          ⟨true, trimLoop p.length (copied.set p.length 0)⟩
        else ⟨false, valueBuf⟩
  else ⟨false, valueBuf⟩

/-- `httpRequest_get_content_length`. -/
def httpRequestGetContentLength (r : HttpRequest) : Int :=
  match httpRequestFindField r (lit "Content-Length") 31 with
  | none => 0
  | some value => if value.all isDigit then atoi value else 0

end TraceServer
