import Mathlib.Data.List.DropRight
import Muduo.Base.Code
import Muduo.Machine.SortedSet
import Muduo.Machine.Text
import Muduo.Net.Buffer.Lines
import Muduo.Net.Buffer.Raw

/-!
# HttpRequest and HttpResponse
-/

namespace Muduo

open Machine

/-- A `std::map<string, string>`. Strings are compared byte by byte. -/
abbrev StringMap := SortedSet fun p : List UInt8 × List UInt8 => p.1.map UInt8.toNat

namespace StringMap

instance : DecidableEq StringMap := fun m m' =>
  decidable_of_iff (m.toList = m'.toList) (by cases m; cases m'; simp)

/-- `m[key] = value`. -/
def assign (m : StringMap) (key value : List UInt8) : StringMap :=
  ((m.erase (key.map UInt8.toNat)).1.insert (key, value)).1

/-- The value at `key`, or an empty string. -/
def get (m : StringMap) (key : List UInt8) : List UInt8 :=
  ((m.find? (key.map UInt8.toNat)).map Prod.snd).getD []

end StringMap

namespace HttpRequest

inductive Method where
  | kInvalid | kGet | kPost | kHead | kPut | kDelete
  deriving DecidableEq

inductive Version where
  | kUnknown | kHttp10 | kHttp11
  deriving DecidableEq

def methodString : Method → List UInt8
  | .kInvalid => ascii "UNKNOWN"
  | .kGet => ascii "GET"
  | .kPost => ascii "POST"
  | .kHead => ascii "HEAD"
  | .kPut => ascii "PUT"
  | .kDelete => ascii "DELETE"

end HttpRequest

structure HttpRequest where
  method : HttpRequest.Method
  version : HttpRequest.Version
  path : List UInt8
  query : List UInt8
  receiveTime : ℤ
  headers : StringMap
  body : List UInt8
  deriving DecidableEq

namespace HttpRequest

/-- A new request. -/
def new : HttpRequest where
  method := .kInvalid
  version := .kUnknown
  path := []
  query := []
  receiveTime := 0
  headers := .empty
  body := []

def setMethod (r : HttpRequest) (m : List UInt8) : Code (Bool × HttpRequest) := do
  check .setMethodTwice (r.method = .kInvalid)
  let method :=
    if m = ascii "GET" then .kGet
    else if m = ascii "POST" then .kPost
    else if m = ascii "HEAD" then .kHead
    else if m = ascii "PUT" then .kPut
    else if m = ascii "DELETE" then .kDelete
    else Method.kInvalid
  return (method ≠ .kInvalid, { r with method := method })

/-- A header line with a colon, which is cut into `field` and what is behind the colon. -/
def addHeader (r : HttpRequest) (field rest : List UInt8) : HttpRequest :=
  { r with headers := r.headers.assign field ((rest.dropWhile isSpace).rdropWhile isSpace) }

def getHeader (r : HttpRequest) (field : List UInt8) : List UInt8 := r.headers.get field

/-- `swap` with a new request: the fields that it exchanges. -/
def swapNew (r : HttpRequest) : HttpRequest := { new with body := r.body }

end HttpRequest

namespace HttpResponse

inductive HttpStatusCode where
  | kUnknown | k200Ok | k301MovedPermanently | k400BadRequest | k404NotFound
  deriving DecidableEq

def HttpStatusCode.value : HttpStatusCode → ℕ
  | kUnknown => 0
  | k200Ok => 200
  | k301MovedPermanently => 301
  | k400BadRequest => 400
  | k404NotFound => 404

end HttpResponse

structure HttpResponse where
  headers : StringMap
  statusCode : HttpResponse.HttpStatusCode
  statusMessage : List UInt8
  closeConnection : Bool
  body : List UInt8
  deriving DecidableEq

namespace HttpResponse

def new (close : Bool) : HttpResponse where
  headers := .empty
  statusCode := .kUnknown
  statusMessage := []
  closeConnection := close
  body := []

def appendHeader (output : RawBuffer) (header : List UInt8 × List UInt8) : Code RawBuffer := do
  let output ← output.appendPiece header.1
  let output ← output.appendPiece (ascii ": ")
  let output ← output.appendPiece header.2
  output.appendPiece (ascii "\r\n")

def appendToBuffer (r : HttpResponse) (output : RawBuffer) : Code RawBuffer := do
  let output ← output.appendPiece
    (snprintf 32 (ascii "HTTP/1.1 " ++ decimal r.statusCode.value ++ ascii " "))
  let output ← output.appendPiece r.statusMessage
  let output ← output.appendPiece (ascii "\r\n")
  let output ←
    if r.closeConnection then output.appendPiece (ascii "Connection: close\r\n")
    else do
      let output ← output.appendPiece
        (snprintf 32 (ascii "Content-Length: " ++ decimal r.body.length ++ ascii "\r\n"))
      output.appendPiece (ascii "Connection: Keep-Alive\r\n")
  let output ← r.headers.toList.foldlM appendHeader output
  let output ← output.appendPiece (ascii "\r\n")
  output.appendPiece r.body

/-- The pieces that `appendToBuffer` appends. -/
def pieces (r : HttpResponse) : List (List UInt8) :=
  [snprintf 32 (ascii "HTTP/1.1 " ++ decimal r.statusCode.value ++ ascii " "), r.statusMessage,
      ascii "\r\n"] ++
    (if r.closeConnection then [ascii "Connection: close\r\n"]
      else [snprintf 32 (ascii "Content-Length: " ++ decimal r.body.length ++ ascii "\r\n"),
        ascii "Connection: Keep-Alive\r\n"]) ++
    (r.headers.toList.flatMap fun f => [f.1, ascii ": ", f.2, ascii "\r\n"]) ++
    [ascii "\r\n", r.body]

lemma appendToBuffer_eq (r : HttpResponse) (output : RawBuffer) :
    r.appendToBuffer output = r.pieces.foldlM RawBuffer.appendPiece output := by
  have hheader : appendHeader = fun output (f : List UInt8 × List UInt8) =>
      [f.1, ascii ": ", f.2, ascii "\r\n"].foldlM RawBuffer.appendPiece output := by
    funext output f
    simp [appendHeader]
  rw [pieces, appendToBuffer, hheader]
  cases r.closeConnection with
  | false => simp [foldlM_flatMap]
  | true => simp [foldlM_flatMap]

/-- What `appendToBuffer` appends, as long as every string is shorter than `2 ^ 31` bytes. -/
def serialize (r : HttpResponse) : List UInt8 := r.pieces.flatten

end HttpResponse
end Muduo
