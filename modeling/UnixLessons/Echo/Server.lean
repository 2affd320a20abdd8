import Mathlib.Data.Vector.Basic
import UnixLessons.Arrays.ShiftLeft
import UnixLessons.Text.Decimal

/-!
# The echo server

A UDP server that numbers the messages of each client. Clients are told apart by
address and port and kept in an array; a client that says good-bye is removed by
shifting the entries behind it. Every other datagram is sent back with its
number.

`serve` is one round of the datagram loop, as a function of the history array.
-/

namespace UnixLessons.Echo

open Text Arrays

/-- Size of the receive and of the reply buffer. -/
def bufferSize : ℕ := 1024

/-- Capacity of the history. -/
def maxHistory : ℕ := 100

def clientShutdown : CString := "CLIENT_SHUTDOWN".toList

/-- The answer to a new client when the history is full. -/
def historyFull : CString := "server history is full".toList

/-- A registered client and the number its next message will get. -/
structure Client where
  port : UInt16
  ipAddr : UInt32
  number : Int32
deriving DecidableEq, Inhabited

/-- The history array; the first `count` cells are in use. -/
structure History where
  client : Vector Client maxHistory
  count : ℕ

namespace History

/-- The history as a zero-initialised global. -/
def zero : History := ⟨Vector.replicate maxHistory default, 0⟩

/-- The cells in use. -/
def entries (h : History) : List Client := h.client.toList.take h.count

end History

/-- Index of the client with the given address and port. -/
def findClient (ipAddr : UInt32) (port : UInt16) (h : History) : Option ℕ :=
  h.entries.findIdx? fun c => c.ipAddr == ipAddr && c.port == port

/-- Register a client with number 1 behind the others; `none` when the history
is full. -/
def addClient (ipAddr : UInt32) (port : UInt16) (h : History) : Option (History × ℕ) :=
  if h.count ≥ maxHistory then none
  else
    some (⟨h.client.setIfInBounds h.count ⟨port, ipAddr, 1⟩, h.count + 1⟩, h.count)

/-- Remove a client, if it is there, by shifting the entries behind it; `none`
when a cell outside the array is read. -/
def removeClient (ipAddr : UInt32) (port : UInt16) (h : History) : Option History :=
  match findClient ipAddr port h with
  | none => some h
  | some i =>
    (shiftLeft h.client i (h.count - 1 - i)).map fun client => ⟨client, h.count - 1⟩

/-- A datagram with the address it came from. -/
structure Datagram where
  ipAddr : UInt32
  port : UInt16
  payload : List Char
deriving DecidableEq

/-- Take the number of the client at index `i`, count the message and format the
reply; `none` when the index is outside the array. -/
def reply (h : History) (buffer : CString) (i : ℕ) : Option (History × Option CString) :=
  match h.client[i]? with
  | none => none
  | some c =>
    some ({ h with client := h.client.setIfInBounds i { c with number := c.number + 1 } },
      some (snprintf bufferSize (buffer ++ ' ' :: decimal c.number.toInt)))

/-- One round of the datagram loop: the new history and the datagram sent back,
if any; `none` when a string or a cell is read outside its array. -/
def serve (h : History) (d : Datagram) : Option (History × Option CString) :=
  match stringIn (received bufferSize d.payload) with
  | none => none
  | some buffer =>
    if buffer = clientShutdown then
      (removeClient d.ipAddr d.port h).map fun h => (h, none)
    else
      match findClient d.ipAddr d.port h with
      | some i => reply h buffer i
      | none =>
        match addClient d.ipAddr d.port h with
        | none => some (h, some historyFull)
        | some (h, i) => reply h buffer i

/-- The datagram loop on a sequence of datagrams: the last history and the
replies in order. -/
def serveAll : History → List Datagram → Option (History × List (Option CString))
  | h, [] => some (h, [])
  | h, d :: ds => do
    let (h, r) ← serve h d
    let (h, rs) ← serveAll h ds
    some (h, r :: rs)

end UnixLessons.Echo
