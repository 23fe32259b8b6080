import LuaTT.Lua.Number

/-! `buffer.c`: buffered reading and unbuffered writing over a transport that gives and takes bytes as it
likes. The results of `recv` and `send` to come are lists; a call that has none left waits for ever. -/
namespace LuaTT.Buffer
open Lua
set_option autoImplicit false

/-! ## The transport -/

def IO_DONE : ℤ := 0

def IO_TIMEOUT : ℤ := -1

def IO_CLOSED : ℤ := -2

def BUF_SIZE : ℕ := 8192

def STEPSIZE : ℕ := 8192

abbrev Failure := {err : ℤ // err ≠ IO_DONE}

/-- A result of `io->recv`: some bytes, or an error without any. -/
inductive Recv
  | bytes (got : Bytes) (h : got ≠ [] ∧ got.length ≤ BUF_SIZE)
  | fail (err : Failure)

/-- A result of `io->send`: how many bytes it takes, if it is given as many, or an error. -/
inductive Sent
  | takes (most : ℕ) (h : 0 < most)
  | fail (err : Failure)

/-- `t_buffer`, with the bytes of `data` from `first` to `last`, and both ends of the transport. -/
structure Conn where
  data : Bytes
  received : UInt32
  sent : UInt32
  incoming : List Recv
  outgoing : List Sent
  /-- What the transport has taken. -/
  wire : Bytes

/-! ## Receiving -/

/-- `buffer_get`: the error, `data[first .. last)` and the buffer. -/
def bufferGet (c : Conn) : Option (ℤ × Bytes × Conn) :=
  if c.data = [] then
    match c.incoming with
    | [] => none
    | .bytes got _ :: rest => some (IO_DONE, got, { c with data := got, incoming := rest })
    | .fail err :: rest => some (err.1, [], { c with incoming := rest })
  else some (IO_DONE, c.data, c)

def bufferSkip (c : Conn) (count : ℕ) : Conn :=
  { c with received := c.received + .ofNat count, data := c.data.drop count }

/-- `recvraw`. -/
def recvraw (wanted : ℕ) : ℕ → ℕ → Bytes → Conn → Option (ℤ × Bytes × Conn)
  | 0, _, _, _ => none
  | fuel + 1, total, b, c => do
    let (err, data, c) ← bufferGet c
    let count := min data.length (wanted - total)
    let b := b ++ data.take count
    let c := bufferSkip c count
    let total := total + count
    if wanted ≤ total then some (err, b, c)
    else if err = IO_DONE then recvraw wanted fuel total b c
    else some (err, b, c)

/-- `recvall`. -/
def recvall : ℕ → ℕ → Bytes → Conn → Option (ℤ × Bytes × Conn)
  | 0, _, _, _ => none
  | fuel + 1, total, b, c => do
    let (err, data, c) ← bufferGet c
    let total := total + data.length
    let b := b ++ data
    let c := bufferSkip c data.length
    if err = IO_DONE then recvall fuel total b c
    else if err = IO_CLOSED then some (if 0 < total then IO_DONE else IO_CLOSED, b, c)
    else some (err, b, c)

/-- The inner loop of `recvline`: `pos`, and the bytes it puts into the result. -/
def scanLine : Bytes → ℕ × Bytes
  | [] => (0, [])
  | c :: data =>
    if c = 10 then (0, [])
    else
      let rest := scanLine data
      (rest.1 + 1, if c ≠ 13 then c :: rest.2 else rest.2)

/-- `recvline`. -/
def recvline : ℕ → Bytes → Conn → Option (ℤ × Bytes × Conn)
  | 0, _, _ => none
  | fuel + 1, b, c => do
    let (err, data, c) ← bufferGet c
    let (pos, line) := scanLine data
    let b := b ++ line
    if pos < data.length then some (err, b, bufferSkip c (pos + 1))
    else
      let c := bufferSkip c pos
      if err = IO_DONE then recvline fuel b c else some (err, b, c)

/-- What `receive` is asked for: a number of bytes, `*l` or `*a`. -/
inductive Pattern
  | number (n : ℕ)
  | line
  | all
  deriving DecidableEq

/-- How often the loops can turn: with what is in the buffer, and for each result of `recv`. -/
def Conn.turns (c : Conn) : ℕ := c.incoming.length + (if c.data = [] then 0 else 1) + 1

/-- `buffer_meth_receive` for a valid pattern. With `IO_DONE` the bytes are the first result, otherwise the
error is the second and the bytes are the third. -/
def receive (pat : Pattern) (part : Bytes) (c : Conn) : Option (ℤ × Bytes × Conn) :=
  match pat with
  | .line => recvline c.turns part c
  | .all => recvall c.turns 0 part c
  | .number n => recvraw (((n : ℤ) - part.length) % 2 ^ 32).toNat c.turns 0 part c

/-! ## Sending -/

/-- `sendraw`: the error and `total`. -/
def sendraw (data : Bytes) : ℕ → ℕ → ℤ → Conn → Option (ℤ × ℕ × Conn)
  | 0, _, _, _ => none
  | fuel + 1, total, err, c =>
    if total < data.length ∧ err = IO_DONE then
      let step := if data.length - total ≤ STEPSIZE then data.length - total else STEPSIZE
      match c.outgoing with
      | [] => none
      | .takes most _ :: rest =>
        let done := min most step
        sendraw data fuel (total + done) IO_DONE
          { c with outgoing := rest, wire := c.wire ++ (data.drop total).take done }
      | .fail err :: rest => sendraw data fuel total err.1 { c with outgoing := rest }
    else some (err, total, { c with sent := c.sent + .ofNat total })

/-- What `(long) luaL_optnumber` keeps of a number. -/
abbrev Long := {i : ℤ // -2 ^ 31 ≤ i ∧ i < 2 ^ 31}

/-- The index of the first byte, from 1; negative ones count from the end. -/
def sendStart (size : ℤ) (start : Option ℤ) : ℤ :=
  let start := start.getD 1
  let start := if start < 0 then size + start + 1 else start
  if start < 1 then 1 else start

/-- The index of the last byte. -/
def sendEnd (size : ℤ) (last : Option ℤ) : ℤ :=
  let last := last.getD (-1)
  let last := if last < 0 then size + last + 1 else last
  if size < last then size else last

/-- `data+start-1`, as far as `end`. -/
def slice (data : Bytes) (start last : ℤ) : Bytes := (data.drop (start - 1).toNat).take (last - start + 1).toNat

/-- `buffer_meth_send` behind its casts: the error and the index of the last byte that has been sent. -/
def send (data : Bytes) (start last : Option ℤ) (c : Conn) : Option (ℤ × ℤ × Conn) :=
  let start := sendStart data.length start
  let last := sendEnd data.length last
  if start ≤ last then do
    let (err, sent, c) ← sendraw (slice data start last) (c.outgoing.length + 1) 0 IO_DONE c
    some (err, sent + start - 1, c)
  else some (IO_DONE, start - 1, c)

end LuaTT.Buffer
