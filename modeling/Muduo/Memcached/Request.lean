import Muduo.Memcached.Item
import Muduo.Net.Buffer.Lines

/-!
# Request lines

How `memcached/server/Session.cc` takes a line apart: the tokens between spaces, and the numbers that
`strtoull` reads from them.
-/

namespace Muduo.Memcached

open Machine

abbrev Token := List UInt8

/-- `SpaceSeparator`: the next token and what is left after it. -/
def separate (next : List UInt8) : Option (Token × List UInt8) :=
  match next.dropWhile (· = 32) with
  | [] => none
  | b :: bs => some ((b :: bs).takeWhile (· ≠ 32), (b :: bs).dropWhile (· ≠ 32))

def tokensAux : ℕ → List UInt8 → List Token
  | 0, _ => []
  | fuel + 1, next =>
    match separate next with
    | none => []
    | some (tok, next) => tok :: tokensAux fuel next

/-- The tokens that a `Tokenizer` runs through. Each has at least one byte. -/
def tokens (request : List UInt8) : List Token := tokensAux request.length request

/-- The suffix that turns replies off, and the request without it. -/
def stripNoreply (request : List UInt8) : Bool × List UInt8 :=
  if 8 ≤ request.length ∧ request.drop (request.length - 8) = ascii " noreply" then
    (true, request.take (request.length - 8))
  else
    (false, request)

/-! ### Numbers -/

/-- The sign that `strtoull` accepts. -/
def sign : List UInt8 → Bool × List UInt8
  | [] => (false, [])
  | b :: bs => if b = 45 then (true, bs) else if b = 43 then (false, bs) else (false, b :: bs)

/-- `strtoull` in base ten: the value, and how many bytes it is read from. -/
def strtoull (l : List UInt8) : ℕ × ℕ :=
  let (negative, rest) := sign (l.dropWhile isSpace)
  let ds := rest.takeWhile isDigit
  if ds = [] then
    (0, 0)
  else
    let n := ofDigits ds
    let value := if 2 ^ 64 ≤ n then 2 ^ 64 - 1 else if negative then (2 ^ 64 - n) % 2 ^ 64 else n
    (value, l.length - rest.length + ds.length)

/-- `Reader::read` before the cast: the token has to be used up. The code runs `strtoull` on the
line from the token on; what follows a token is a space or CRLF, so it ends at the end of the token
in the same cases as on the token alone. -/
def read : List Token → Option (ℕ × List Token)
  | [] => none
  | first :: rest =>
    let (x, stop) := strtoull first
    if stop = first.length then some (x, rest) else none

/-- `static_cast` to `int` and to `time_t`. -/
def toInt (x : ℕ) : ℤ := Int.bmod x (2 ^ 32)

def toTime (x : ℕ) : ℤ := Int.bmod x (2 ^ 64)

/-! ### Updates -/

def kLongestKeySize : ℕ := 250

/-- The policy of an update command. -/
def policyOf (command : List UInt8) : Option UpdatePolicy :=
  if command = ascii "set" then some .kSet
  else if command = ascii "add" then some .kAdd
  else if command = ascii "replace" then some .kReplace
  else if command = ascii "append" then some .kAppend
  else if command = ascii "prepend" then some .kPrepend
  else if command = ascii "cas" then some .kCas
  else none

/-- The numbers of an update command. -/
structure Fields where
  flags : UInt32
  exptime : ℤ
  bytes : ℤ
  cas : ℕ

/-- What `doUpdate` reads after the key, if it is good. -/
def readFields (policy : UpdatePolicy) (key : Token) (r : List Token) : Option Fields := do
  guard (key.length ≤ kLongestKeySize)
  let (flags, r) ← read r
  let (exptime, r) ← read r
  let (bytes, r) ← read r
  let cas ← if policy = .kCas then Prod.fst <$> read r else some 0
  return ⟨UInt32.ofNat flags, toTime exptime, toInt bytes, cas⟩

end Muduo.Memcached
