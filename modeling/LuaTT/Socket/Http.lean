import LuaTT.Lua.IntegerText
import LuaTT.Socket.Sending
import LuaTT.Socket.Pumps

/-! `http.lua`: the bodies it sends and receives, as sources and sinks of a connection, the header fields, and
the answer to a request. -/
namespace LuaTT.Http
open Lua Buffer Ltn12
set_option autoImplicit false

/-! ## A connection as Lua sees it -/

/-- `io_strerror`, and of `socket_strerror` what it says itself; the other texts are those of Winsock. -/
def socketStrerror (wstrerror : ℤ → Bytes) (err : ℤ) : Bytes :=
  if err ≤ 0 then
    if err = IO_CLOSED then bytes "closed" else if err = IO_TIMEOUT then bytes "timeout" else bytes "unknown error"
  else if err = 10048 then bytes "address already in use"
  else if err = 10061 then bytes "connection refused"
  else if err = 10056 then bytes "already connected"
  else if err = 10013 then bytes "permission denied"
  else if err = 10053 ∨ err = 10054 then bytes "closed"
  else if err = 10060 then bytes "timeout"
  else wstrerror err

/-- The results of `sock:receive`: with an error the bytes are the partial result. -/
structure Received where
  bytes : Bytes
  err : Option Bytes

section Connection
variable (wstrerror : ℤ → Bytes)

def sockReceive (pat : Pattern) (part : Bytes) (c : Conn) : Except Stop (Received × Conn) :=
  match receive pat part c with
  | none => .error .fuel
  | some (err, b, c) => .ok (⟨b, if err = IO_DONE then none else some (socketStrerror wstrerror err)⟩, c)

def sockSend (data : Bytes) (c : Conn) : Except Stop (Ret × Conn) :=
  match send data none none c with
  | none => .error .fuel
  | some (err, _, c) =>
    .ok (if err = IO_DONE then ⟨true, none⟩ else ⟨false, some (socketStrerror wstrerror err)⟩, c)

end Connection

/-! ## Hexadecimal numbers -/

/-- `string.format("%X", n)`. -/
def formatX (n : ℕ) : Bytes := (Nat.toDigits 16 n).map fun c => c.toUpper.toNat.toUInt8

/-- A prefix 0x, where a digit follows it. -/
def skipPrefix : Bytes → Bytes
  | 48 :: x :: d :: p => if casecmp x 120 && ljCharIsxdigit d then d :: p else 48 :: x :: d :: p
  | p => p

def hexValue (ds : Bytes) : ℕ := ds.foldl (fun m c => m * 16 + digitValue c) 0

/-- `strtoul` with the base 16: the number, and what follows it. -/
def strtoul (s : Bytes) : Option (ℕ × Bytes) :=
  let (neg, p) := scanSign (s.dropWhile ljCharIsspace)
  let p := skipPrefix p
  let n := hexValue (p.takeWhile ljCharIsxdigit)
  if p.takeWhile ljCharIsxdigit = [] then none
  else some (if 2 ^ 32 ≤ n then 2 ^ 32 - 1 else if neg then (2 ^ 32 - n) % 2 ^ 32 else n,
    p.dropWhile ljCharIsxdigit)

/-- `tonumber(s, 16)`. -/
def tonumber16 (s : Bytes) : Option ℕ :=
  match strtoul (cstring s) with
  | none => none
  | some (n, p) => if p.all ljCharIsspace then some n else none

/-! ## Header fields -/

abbrev Headers := Bytes → Option Bytes

/-- What `receiveheaders` may find as its second argument; `receivebody` gives the length. -/
inductive HeadersArg
  | nil
  | number
  | table (t : Headers)

/-- `headers or {}`. -/
def HeadersArg.orTable : HeadersArg → HeadersArg
  | .nil => .table fun _ => none
  | h => h

def tolower (c : UInt8) : UInt8 := if 65 ≤ c ∧ c ≤ 90 then c + 32 else c

/-- `string.lower`. -/
def lower (s : Bytes) : Bytes := s.map tolower

/-- The pattern `^(.-):%s*(.*)`. -/
def splitHeader (line : Bytes) : Option (Bytes × Bytes) :=
  match line.dropWhile (· ≠ 58) with
  | [] => none
  | _ :: value => some (line.takeWhile (· ≠ 58), value.dropWhile ljCharIsspace)

def joined (old : Option Bytes) (value : Bytes) : Bytes :=
  match old with
  | some old => old ++ bytes ", " ++ value
  | none => value

/-- The pair is saved, behind an earlier value of the same name. -/
def saveHeader (headers : HeadersArg) (name value : Bytes) : Except Stop HeadersArg :=
  match headers with
  | .table t => .ok (.table fun n => if n = name then some (joined (t name) value) else t n)
  | _ => .error (.error (bytes "attempt to index local 'headers' (a number value)"))

section Receiving
variable (wstrerror : ℤ → Bytes)

/-- Lines that begin with a space belong to the value. -/
def unfoldLines : ℕ → Bytes → Bytes → Conn → Except Stop (Bytes × Bytes × Conn)
  | 0, _, _, _ => .error .fuel
  | fuel + 1, value, line, c =>
    if (line.take 1).any ljCharIsspace then do
      let (next, c) ← sockReceive wstrerror .line [] c
      -- the error is not looked at here
      if next.err.isSome then throw (.error (bytes "bad argument #1 to 'find' (string expected, got nil)"))
      unfoldLines fuel (value ++ line) next.bytes c
    else return (value, line, c)

def headersLoop : ℕ → HeadersArg → Bytes → Conn → Except Stop (Except Bytes HeadersArg × Conn)
  | 0, _, _, _ => .error .fuel
  | fuel + 1, headers, line, c =>
    if line = [] then .ok (.ok headers, c)
    else
      match splitHeader line with
      | none => .ok (.error (bytes "malformed reponse headers"), c)
      | some (name, value) => do
        let (next, c) ← sockReceive wstrerror .line [] c
        match next.err with
        | some err => return (.error err, c)
        | none =>
          let (value, line, c) ← unfoldLines wstrerror fuel value next.bytes c
          let headers ← saveHeader headers (lower name) value
          headersLoop fuel headers line c

def receiveheaders (fuel : ℕ) (headers : HeadersArg) (c : Conn) :
    Except Stop (Except Bytes HeadersArg × Conn) := do
  let (line, c) ← sockReceive wstrerror .line [] c
  match line.err with
  | some err => return (.error err, c)
  | none => headersLoop wstrerror fuel headers.orTable line.bytes c

/-! ## Sources -/

/-- `socket.sourcet["http-chunked"]`. -/
def sourceHttpChunked (fuel : ℕ) : Source (HeadersArg × Conn) := fun (headers, c) => do
  let (line, c) ← sockReceive wstrerror .line [] c
  if line.err.isSome then return (⟨none, line.err⟩, headers, c)
  match tonumber16 (line.bytes.takeWhile (· ≠ 59)) with
  | none => return (⟨none, some (bytes "invalid chunk size")⟩, headers, c)
  | some size =>
    if 0 < size then
      let (chunk, c) ← sockReceive wstrerror (.number size) [] c
      if chunk.err.isSome then return (⟨none, chunk.err⟩, headers, c)
      let (_, c) ← sockReceive wstrerror .line [] c
      return (⟨some chunk.bytes, none⟩, headers, c)
    else
      let (r, c) ← receiveheaders wstrerror fuel headers c
      match r with
      | .ok headers => return (⟨none, none⟩, headers, c)
      | .error err => return (⟨none, some err⟩, .nil, c)

def socketBLOCKSIZE : ℕ := 2048

/-- The numbers that `sourcet["by-length"]` counts down: whether the length is spent, how many bytes
`math.min(socket.BLOCKSIZE, length)` asks for, and what is left of it. -/
class Length (N : Type) where
  spent : N → Bool
  size : N → ℕ
  minus : N → ℕ → N

instance : Length ℤ where
  spent length := length ≤ 0
  size length := (min (socketBLOCKSIZE : ℤ) length).toNat
  minus length taken := length - taken

instance : Length LuaNumber where
  spent length := length ≤ Float.ofNat 0
  size length := toCUInt (if Float.ofNat socketBLOCKSIZE < length then Float.ofNat socketBLOCKSIZE else length)
  minus length taken := length - Float.ofNat taken

/-- `socket.sourcet["by-length"]`. -/
def sourceByLength {N : Type} [Length N] : Source (N × Conn) := fun (length, c) =>
  if Length.spent length then .ok (⟨none, none⟩, length, c)
  else do
    let (chunk, c) ← sockReceive wstrerror (.number (Length.size length)) [] c
    if chunk.err.isSome then return (⟨none, chunk.err⟩, length, c)
    return (⟨some chunk.bytes, none⟩, Length.minus length chunk.bytes.length, c)

/-- `socket.sourcet["until-closed"]`. -/
def sourceUntilClosed : Source (Bool × Conn) := fun (done, c) =>
  if done then .ok (⟨none, none⟩, done, c)
  else do
    let (chunk, c) ← sockReceive wstrerror (.number socketBLOCKSIZE) [] c
    match chunk.err with
    | none => return (⟨some chunk.bytes, none⟩, done, c)
    | some err =>
      if err = bytes "closed" then return (⟨some chunk.bytes, none⟩, true, c)
      else return (⟨none, some err⟩, done, c)

end Receiving

/-! ## Sinks -/

section Sinks
variable (wstrerror : ℤ → Bytes)

/-- `socket.sinkt["http-chunked"]`. -/
def sinkHttpChunked : Sink Conn := fun chunk _ c =>
  match chunk with
  | none => sockSend wstrerror (bytes "0\r\n\r\n") c
  | some chunk => sockSend wstrerror (formatX chunk.length ++ bytes "\r\n" ++ chunk ++ bytes "\r\n") c

/-- `socket.sinkt["keep-open"]`. -/
def sinkKeepOpen : Sink Conn := fun chunk _ c =>
  match chunk with
  | some chunk => sockSend wstrerror chunk c
  | none => .ok (⟨true, none⟩, c)

end Sinks
/-! ## The answer to a request -/

/-- What `self.try` raises, or an error of Lua's own. -/
inductive Raise
  | tried (err : Option Bytes)
  | stop (s : Stop)

def untried {α : Type} : Except Stop α → Except Raise α
  | .ok a => .ok a
  | .error s => .error (.stop s)

/-- The pattern `HTTP/%d*%.%d* (%d%d%d)` at the beginning of a text: the code. -/
def matchStatus (p : Bytes) : Option Bytes :=
  if bytes "HTTP/" <+: p then
    match (p.drop 5).dropWhile ljCharIsdigit with
    | 46 :: q =>
      match q.dropWhile ljCharIsdigit with
      | 32 :: x :: y :: z :: _ => if [x, y, z].all ljCharIsdigit then some [x, y, z] else none
      | _ => none
    | _ => none
  else none

def findStatus (status : Bytes) : Option Bytes := status.tails.findSome? matchStatus

inductive BodyMode
  | httpChunked
  | byLength (length : LuaNumber)
  | untilClosed

/-- `tonumber(headers["content-length"])`. -/
def contentLength (headers : Headers) : Option LuaNumber :=
  (headers (bytes "content-length")).bind ljStrscanNum

/-- How `receivebody` reads the body. -/
def bodyMode (headers : Headers) : BodyMode :=
  let known := match contentLength headers with
    | some length => .byLength length
    | none => .untilClosed
  match headers (bytes "transfer-encoding") with
  | some t => if t ≠ bytes "identity" then .httpChunked else known
  | none => known

/-- The fields of a request that decide about its answer. -/
structure Request where
  method : Option Bytes
  /-- `redirect ~= false`. -/
  redirect : Bool
  nredirects : ℕ
  /-- There is a body to send. -/
  source : Bool

/-- Where to go instead. -/
def shouldredirect (reqt : Request) (code : Option ℕ) (headers : Headers) : Option Bytes :=
  match headers (bytes "location") with
  | none => none
  | some location =>
    if !location.all ljCharIsspace && reqt.redirect && (code = some 301 || code = some 302) &&
        (reqt.method = none || reqt.method = some (bytes "GET") || reqt.method = some (bytes "HEAD")) &&
        reqt.nredirects < 5 then some location
    else none

/-- `shouldreceivebody`; a missing code is compared only where the method is not HEAD. -/
def shouldreceivebody (reqt : Request) (code : Option ℕ) : Except Stop Bool :=
  if reqt.method = some (bytes "HEAD") then .ok false
  else
    match code with
    | none => .error (.error (bytes "attempt to compare number with nil"))
    | some code => .ok (code ≠ 204 ∧ code ≠ 304 ∧ ¬(100 ≤ code ∧ code < 200))

inductive Answer
  /-- HTTP/0.9: a body and nothing else. -/
  | old
  | response (code : Option ℕ) (headers : Headers) (status : Bytes)
  /-- `tredirect` is called. -/
  | redirect (location : Bytes)

section Answer
variable (wstrerror : ℤ → Bytes) {τ ω : Type}

def tryReceive (pat : Pattern) (part : Bytes) (c : Conn) : Except Raise (Bytes × Conn) := do
  let (r, c) ← untried (sockReceive wstrerror pat part c)
  if r.err.isSome then throw (.tried r.err)
  return (r.bytes, c)

/-- `metat.__index:receivestatusline`. -/
def receivestatusline (c : Conn) : Except Raise ((Option ℕ × Bytes) × Conn) := do
  let (status, c) ← tryReceive wstrerror (.number 5) [] c
  if status ≠ bytes "HTTP/" then return ((none, status), c)
  let (status, c) ← tryReceive wstrerror .line status c
  match findStatus status with
  | some code => return ((some (readDigits 0 code), status), c)
  | none => throw (.tried (some status))

/-- `metat.__index:receiveheaders`. -/
def tryHeaders (fuel : ℕ) (c : Conn) : Except Raise (Headers × Conn) := do
  let (r, c) ← untried (receiveheaders wstrerror fuel .nil c)
  match r with
  | .ok (.table t) => return (t, c)
  | .ok _ => return (fun _ => none, c)
  | .error err => throw (.tried (some err))

/-- `self.try(ltn12.pump.all(source, sink, step))`. -/
def tryPump (src : Source τ) (snk : Sink ω) (fuel : ℕ) (t : τ) (w : ω) : Except Raise (τ × ω) := do
  let (ret, t, w) ← untried (pumpAll src snk fuel (t, w))
  if ret.ok then return (t, w) else throw (.tried ret.err)

/-- `metat.__index:receivebody`. -/
def receivebody (headers : Headers) (snk : Sink ω) (fuel : ℕ) (c : Conn) (w : ω) : Except Raise (Conn × ω) :=
  match bodyMode headers with
  | .httpChunked => do
    let length := if (contentLength headers).isSome then .number else .nil
    let ((_, c), w) ← tryPump (sourceHttpChunked wstrerror fuel) snk fuel (length, c) w
    return (c, w)
  | .byLength length => do
    let ((_, c), w) ← tryPump (sourceByLength wstrerror) snk fuel (length, c) w
    return (c, w)
  | .untilClosed => do
    let ((_, c), w) ← tryPump (sourceUntilClosed wstrerror) snk fuel (false, c) w
    return (c, w)

/-- `ltn12.source.rewind`, for a source that has been given its chunks back. -/
def sourceRewind (src : Source τ) : Source (List Bytes × τ) := fun (given, t) =>
  match given with
  | chunk :: given => .ok (⟨some chunk, none⟩, given, t)
  | [] => do
    let (r, t) ← src t
    return (r, [], t)

/-- Any answers with the code 100 come before the real one. -/
def skipContinue : ℕ → Option ℕ × Bytes → Conn → Except Raise ((Option ℕ × Bytes) × Conn)
  | 0, _, _ => .error (.stop .fuel)
  | fuel + 1, (code, status), c =>
    if code = some 100 then do
      let (_, c) ← tryHeaders wstrerror fuel c
      let (status, c) ← receivestatusline wstrerror c
      skipContinue fuel status c
    else .ok ((code, status), c)

/-- What `trequest` does when the request has gone out. -/
def receiveresponse (reqt : Request) (snk : Sink ω) (fuel : ℕ) (c : Conn) (w : ω) :
    Except Raise (Answer × Conn × ω) := do
  let ((code, status), c) ← receivestatusline wstrerror c
  if code.isNone then
    let ((_, _, c), w) ← tryPump (sourceRewind (sourceUntilClosed wstrerror)) snk fuel ([status], false, c) w
    return (.old, c, w)
  let ((code, status), c) ← skipContinue wstrerror fuel (code, status) c
  let (headers, c) ← tryHeaders wstrerror fuel c
  match shouldredirect reqt code headers, reqt.source with
  | some location, false => return (.redirect location, c, w)
  | _, _ =>
    if ← untried (shouldreceivebody reqt code) then
      let (c, w) ← receivebody wstrerror headers snk fuel c w
      return (.response code headers status, c, w)
    else return (.response code headers status, c, w)

end Answer

/-! ## The request -/

section Request
variable (wstrerror : ℤ → Bytes)

/-- `metat.__index:sendheaders`, for the fields in the order of `pairs`; each goes in front of those before it. -/
def sendheaders (fields : List (Bytes × Bytes)) (c : Conn) : Except Stop (Ret × Conn) :=
  sockSend wstrerror
    (fields.foldl (fun h (i, v) => i ++ bytes ": " ++ v ++ bytes "\r\n" ++ h) (bytes "\r\n")) c

end Request
end LuaTT.Http
