import Vanguard.Dns.Name
import Vanguard.Library.Heap

/-!
# Resource records

An RRset is an object with a list of references to rdata objects, and both are shared between zones,
messages and the cache. `RRset Ptr` is the object in the heap, `RRset Rdata` what a reader sees.
-/

namespace Vanguard

open Library

structure RRType where
  code : UInt16
  deriving DecidableEq, Repr

namespace RRType

/-- `RR_A`. -/
def a : RRType := ⟨1⟩
/-- `RR_NS`. -/
def ns : RRType := ⟨2⟩
/-- `RR_CNAME`. -/
def cname : RRType := ⟨5⟩
/-- `RR_SOA`. -/
def soa : RRType := ⟨6⟩
/-- `RR_MX`. -/
def mx : RRType := ⟨15⟩
/-- `RR_AAAA`. -/
def aaaa : RRType := ⟨28⟩
/-- `RR_SRV`. -/
def srv : RRType := ⟨33⟩

end RRType

structure RRClass where
  code : UInt16
  deriving DecidableEq, Repr

def RRClass.internet : RRClass := ⟨1⟩

structure SOA where
  mName : Name
  rName : Name
  serial : UInt32
  refresh : UInt32
  retry : UInt32
  expire : UInt32
  minimum : UInt32
  deriving DecidableEq, Repr

/-- `g53.Rdata`, equal when `Compare` returns 0. What the server does not look at are bytes. -/
inductive Rdata where
  | a (host : List UInt8)
  | aaaa (host : List UInt8)
  | ns (name : Name)
  | cname (name : Name)
  | mx (preference : UInt16) (exchange : Name)
  | srv (priority weight port : UInt16) (target : Name)
  | soa (soa : SOA)
  | other (typ : RRType) (data : List UInt8)
  deriving DecidableEq, Repr

def Rdata.isSoa : Rdata → Bool
  | .soa _ => true
  | _ => false

structure RRset (ρ : Type) where
  name : Name
  typ : RRType
  cls : RRClass
  ttl : UInt32
  rdatas : List ρ
  deriving DecidableEq, Repr

def RRset.map {ρ ρ' : Type} (f : ρ → ρ') (r : RRset ρ) : RRset ρ' :=
  ⟨r.name, r.typ, r.cls, r.ttl, r.rdatas.map f⟩

structure Objects where
  rrsets : Heap (RRset Ptr)
  rdatas : Heap Rdata

namespace Objects

def value (h : Objects) (p : Ptr) : RRset Rdata := (h.rrsets.load p).map h.rdatas.load

def ofLists (rrsets : List (RRset Ptr)) (rdatas : List Rdata) : Objects :=
  ⟨.ofList ⟨.root, .a, .internet, 0, []⟩ rrsets, .ofList (.a []) rdatas⟩

def allocRRset (h : Objects) (r : RRset Ptr) : Objects × Ptr :=
  let (rrsets, p) := h.rrsets.alloc r
  ({ h with rrsets }, p)

structure Extends (h h' : Objects) : Prop where
  rrsets : h.rrsets.Extends h'.rrsets
  rdatas : h'.rdatas = h.rdatas

theorem Extends.refl (h : Objects) : h.Extends h := ⟨Heap.Extends.refl _, rfl⟩

theorem Extends.trans {h h' h'' : Objects} (h₁ : h.Extends h') (h₂ : h'.Extends h'') :
    h.Extends h'' := ⟨h₁.rrsets.trans h₂.rrsets, h₂.rdatas.trans h₁.rdatas⟩

theorem Extends.value_eq {h h' : Objects} (hext : h.Extends h') {p : Ptr}
    (hp : p < h.rrsets.next) : h'.value p = h.value p := by
  simp only [value, hext.rrsets.load_eq p hp, hext.rdatas]

variable (h : Objects) (r : RRset Ptr)

theorem extends_allocRRset : h.Extends (h.allocRRset r).1 :=
  ⟨Heap.extends_alloc _ _, rfl⟩

@[simp] theorem value_allocRRset :
    (h.allocRRset r).1.value (h.allocRRset r).2 = r.map h.rdatas.load := by
  simp [value, allocRRset, Heap.alloc, Heap.load]

@[simp] theorem ptr_allocRRset :
    (h.allocRRset r).2 = h.rrsets.next := rfl

@[simp] theorem next_allocRRset :
    (h.allocRRset r).1.rrsets.next = h.rrsets.next + 1 := rfl

end Objects

end Vanguard
