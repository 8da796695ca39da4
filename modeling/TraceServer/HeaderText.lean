import Mathlib.Data.List.DropRight
import TraceServer.HttpRequest
import TraceServer.Proof.SundayCase

/-!
# What a header says

The text of a header, apart from the functions that look things up in it: a request line,
then one line for every field, then an empty line. What a field name stands for is the value
of the first line whose name is the same up to the case of letters. In the request line, the
URL is the second word, and its query is a list of parameters.
-/

namespace TraceServer

/-- A text that stays in its line. -/
structure IsLine (s : Bytes) : Prop where
  noCr : (13 : UInt8) ∉ s
  noLf : (10 : UInt8) ∉ s
  noNul : (0 : UInt8) ∉ s

/-- A field of a header. -/
structure Field where
  name : Bytes
  value : Bytes
  name_line : IsLine name
  name_noColon : (58 : UInt8) ∉ name
  value_line : IsLine value

/-- `name ':' value CRLF`. -/
def Field.bytes (f : Field) : Bytes := f.name ++ lit ":" ++ f.value ++ crlf

/-- A request line and the fields after it. -/
def headerBytes (requestLine : Bytes) (fields : List Field) : Bytes :=
  requestLine ++ crlf ++ fields.flatMap Field.bytes ++ crlf

/-- A header that fits the buffer it is received into. -/
structure HeaderText where
  requestLine : Bytes
  fields : List Field
  line : IsLine requestLine
  fits : (headerBytes requestLine fields).length < httpRequestHeaderBufSize

namespace HeaderText

def bytes (h : HeaderText) : Bytes := headerBytes h.requestLine h.fields

/-- The request that has received it. -/
def request (h : HeaderText) : HttpRequest := .ofHeader h.bytes

/-- Two names that differ in the case of letters at most. -/
def sameName (name find : Bytes) : Bool := name.map asciiLower == find.map asciiLower

/-- The field that `find` names. -/
def lookup (h : HeaderText) (find : Bytes) : Option Field :=
  h.fields.find? fun f => sameName f.name find

end HeaderText

/-! ## The request line -/

/-- What stands before the first line end of a header. -/
def requestLine (header : Bytes) : Bytes := header.take ((crlf.firstOcc header).getD header.length)

/-- In `text`, `url` comes after the first spaces, and a space comes after it. -/
structure UrlAt (text method url : Bytes) : Prop where
  method_noSpace : (32 : UInt8) ∉ method
  url_noSpace : (32 : UInt8) ∉ url
  url_ne_nil : url ≠ []
  text : ∃ spaces rest, text = method ++ (List.replicate (spaces + 1) 32 ++ (url ++ 32 :: rest))

/-- `url` is what a request line asks for. -/
structure IsUrl (line url : Bytes) : Prop where
  second : ∃ method, method ≠ [] ∧ UrlAt line method url
  noCr : (13 : UInt8) ∉ url
  noLf : (10 : UInt8) ∉ url

/-- A word of a line. -/
structure IsToken (s : Bytes) : Prop extends IsLine s where
  noSpace : (32 : UInt8) ∉ s
  ne_nil : s ≠ []

/-- A header that fits its buffer, by the words of its request line. -/
structure RequestText where
  method : Bytes
  spaces : Nat
  url : Bytes
  version : Bytes
  fields : Bytes
  method_token : IsToken method
  url_token : IsToken url
  noNul : (0 : UInt8) ∉ version ++ fields
  fits : (method ++ (List.replicate (spaces + 1) 32
      ++ (url ++ 32 :: (version ++ (crlf ++ fields))))).length < httpRequestHeaderBufSize

namespace RequestText

def bytes (h : RequestText) : Bytes :=
  h.method ++ (List.replicate (h.spaces + 1) 32
    ++ (h.url ++ 32 :: (h.version ++ (crlf ++ h.fields))))

/-- The request that has received it. -/
def request (h : RequestText) : HttpRequest := .ofHeader h.bytes

/-- The URL before its first `?`. -/
def path (h : RequestText) : Bytes := h.url.takeWhile (· != 63)

end RequestText

/-! ## The query -/

/-- A key or a value of a query. -/
structure IsWord (s : Bytes) : Prop extends IsToken s where
  noQuestion : (63 : UInt8) ∉ s
  noAnd : (38 : UInt8) ∉ s
  noEq : (61 : UInt8) ∉ s

/-- A parameter of a query. -/
structure Parmer where
  key : Bytes
  value : Bytes
  key_word : IsWord key
  value_word : IsWord value

/-- `key '=' value`. -/
def Parmer.bytes (p : Parmer) : Bytes := p.key ++ 61 :: p.value

/-- The parameters of a query, with a `&` between any two. -/
def queryBytes : List Parmer → Bytes
  | [] => []
  | [p] => p.bytes
  | p :: ps => p.bytes ++ 38 :: queryBytes ps

/-- A parameter starts at `i`. -/
def StartsAt (query : Bytes) (i : Nat) : Prop := i = 0 ∨ query.getD (i - 1) 0 = 38

instance (query : Bytes) (i : Nat) : Decidable (StartsAt query i) :=
  inferInstanceAs (Decidable (_ ∨ _))

/-- What comes behind `k` and a `=` at `i`, up to the next `&`. -/
def valueBehind (query k : Bytes) (i : Nat) : Bytes :=
  (query.drop (i + (k.length + 1))).takeWhile (· != 38)

/-! ## Values -/

/-- `s` without the spaces it starts and ends in. -/
def trimSpaces (s : Bytes) : Bytes := (s.dropWhile (· == 32)).rdropWhile (· == 32)

/-! ## What is taken for them

A header need not be one of these texts. What is said here of any text is what the server takes for
its URL, for a parameter and for a field. -/

/-- The text of the header, once there is one. -/
def HttpRequest.text (r : HttpRequest) : Bytes := if 0 < r.headerLen then cstr r.header else []

/-- `url` comes after the first spaces, in the first line or in another, and a line end comes
somewhere behind the first space. -/
def TakenForUrl (text url : Bytes) : Prop :=
  ∃ method, UrlAt text method url ∧ crlf <:+: text.drop (method.length + 1)

/-- `query` comes after the first `?` of what is taken for a URL that has room. -/
def TakenForQuery (text query : Bytes) : Prop :=
  ∃ path, (63 : UInt8) ∉ path ∧ TakenForUrl text (path ++ 63 :: query)
    ∧ (path ++ 63 :: query).length < 1023

/-- `value` comes after the first `k=` of the query, which a parameter starts at, up to the next
`&`. -/
def TakenForParmer (text k value : Bytes) : Prop :=
  ∃ query i, TakenForQuery text query ∧ List.IsFirstOcc (k ++ [61]) query i ∧ StartsAt query i
    ∧ value = valueBehind query k i ∧ value ≠ []

/-- `value`, with spaces around it, comes after the first `CRLF name ':'`, up to the case of
letters, up to the next line end, and is shorter than `size` with these spaces. -/
def TakenForField (text name : Bytes) (size : Int) (value : Bytes) : Prop :=
  ∃ i q : Nat, List.IsFirstOcc ((crlf ++ name ++ lit ":").map asciiLower) (text.map asciiLower) i
    ∧ List.IsFirstOcc crlf (text.drop (i + (name.length + 3))) q ∧ q < size
    ∧ value = trimSpaces ((text.drop (i + (name.length + 3))).take q)

end TraceServer
