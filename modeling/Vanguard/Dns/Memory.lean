import Vanguard.Dns.Message
import Vanguard.Library.Slice
import Mathlib.Data.Multiset.Basic

/-!
# Messages as objects

A message holds three slices over arrays of pointers to RRsets, and each of these objects can be
shared: a message with its copies shares the arrays, an array shares the RRsets.
-/

namespace Vanguard

open Library

structure Memory where
  rrsets : Heap (RRset Rdata)
  arrays : Heap (ℕ → Ptr)
  messages : Heap (Message Slice)

namespace Memory

def empty : Memory :=
  ⟨.ofList ⟨.root, .a, .internet, 0, []⟩ [], .ofList (fun _ => 0) [],
    .ofList ⟨⟨0, false, false, .noError, 0, 0, 0⟩, ⟨.root, .a, .internet⟩, .nil, .nil, .nil⟩ []⟩

section

variable (mem : Memory)

def rrsetsOf (s : Slice) : Section := (s.read mem.arrays).map mem.rrsets.load

def view (m : Ptr) : Message Section := (mem.messages.load m).map mem.rrsetsOf

def modifyMessage (m : Ptr) (f : Message Slice → Message Slice) : Memory :=
  { mem with messages := mem.messages.write m (f (mem.messages.load m)) }

def modifyRRset (p : Ptr) (f : RRset Rdata → RRset Rdata) : Memory :=
  { mem with rrsets := mem.rrsets.write p (f (mem.rrsets.load p)) }

def allocMessage (msg : Message Slice) : Memory × Ptr :=
  let (messages, m) := mem.messages.alloc msg
  ({ mem with messages }, m)

def allocRRset (r : RRset Rdata) : Memory × Ptr :=
  let (rrsets, p) := mem.rrsets.alloc r
  ({ mem with rrsets }, p)

/-- `s[i] = p` for a section. -/
def setElem (s : Slice) (i : ℕ) (p : Ptr) : Memory :=
  { mem with arrays := s.set mem.arrays i p }

end

def append (grow : ℕ → ℕ) (mem : Memory) (s : Slice) (p : Ptr) : Memory × Slice :=
  let (arrays, s') := s.append grow mem.arrays p
  ({ mem with arrays }, s')

def allocRRsets (mem : Memory) : Section → Memory × List Ptr
  | [] => (mem, [])
  | r :: rs =>
    let (mem, p) := mem.allocRRset r
    let (mem, ps) := mem.allocRRsets rs
    (mem, p :: ps)

def storeSection (mem : Memory) (rs : Section) (spare : ℕ) : Memory × Slice :=
  let (mem, ps) := mem.allocRRsets rs
  let (arrays, s) := Slice.ofList mem.arrays ps spare
  ({ mem with arrays }, s)

def storeMessage (mem : Memory) (v : Message Section) (spare : ℕ) : Memory × Ptr :=
  let (mem, answer) := mem.storeSection v.answer spare
  let (mem, auth) := mem.storeSection v.auth spare
  let (mem, additional) := mem.storeSection v.additional spare
  mem.allocMessage ⟨v.header, v.question, answer, auth, additional⟩

end Memory

end Vanguard
