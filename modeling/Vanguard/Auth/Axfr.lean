import Vanguard.Dns.RRset

/-!
# The transfer of a zone from a master

`doAXFR` asks a master for a zone, reads the messages of the answer and sends their RRsets on, until
a message ends with a SOA.
-/

namespace Vanguard.Auth

open List

inductive Read (α : Type) where
  | failed
  /-- `MessageFromWire` fails. -/
  | malformed
  | message (rrsets : List α)
  deriving DecidableEq, Repr

inductive AxfrError where
  /-- The error of `NewTCPConn`. -/
  | connect
  /-- The error of `TCPWrite`. -/
  | write
  /-- The error of `TCPRead`. -/
  | read
  /-- The error of `MessageFromWire`. -/
  | format
  /-- `axfr message must not has empty answer section`. -/
  | emptyAnswer
  /-- `axfr first message has no soa`. -/
  | noSoa
  deriving DecidableEq, Repr

/-- A master as `doAXFR` meets it. -/
structure Master (α : Type) where
  connects : Bool
  writes : Bool
  reads : List (Read α)
  deriving DecidableEq, Repr

section loop

variable {α : Type} (typ : α → RRType)

/-- The loop of `doAXFR`: what it sends and its error. The test after the loop never fails. -/
def readLoop (firstPackageValid : Bool) : List (Read α) → List α × Option AxfrError
  | [] | .failed :: _ => ([], some .read)
  | .malformed :: _ => ([], some .format)
  | .message [] :: _ => ([], some .emptyAnswer)
  | .message (first :: rrsets) :: reads =>
    if !firstPackageValid && typ first != .soa then ([], some .noSoa)
    else if typ ((first :: rrsets).getLast (cons_ne_nil _ _)) = .soa then
      ((first :: rrsets).dropLast, none)
    else
      let (sent, err) := readLoop true reads
      (first :: rrsets ++ sent, err)

/-- `doAXFR`: the RRsets sent on `loadChan` and the error returned. -/
def doAXFR (master : Master α) : List α × Option AxfrError :=
  if !master.connects then ([], some .connect)
  else if !master.writes then ([], some .write)
  else readLoop typ false master.reads

def EndsWithSoa (rrsets : List α) : Prop := ∃ init last, rrsets = init ++ [last] ∧ typ last = .soa

variable {typ}

theorem endsWithSoa_iff {first : α} {rrsets : List α} :
    EndsWithSoa typ (first :: rrsets) ↔
      typ ((first :: rrsets).getLast (cons_ne_nil _ _)) = .soa := by
  constructor
  · rintro ⟨init, last, heq, hlast⟩
    simpa only [heq, getLast_append_singleton] using hlast
  · intro hlast
    exact ⟨_, _, (dropLast_append_getLast (cons_ne_nil _ _)).symm, hlast⟩

theorem readLoop_of_endsWithSoa (init : List α) {last : α} (hlast : typ last = .soa)
    (reads : List (Read α)) :
    readLoop typ true (.message (init ++ [last]) :: reads) = (init, none) := by
  obtain ⟨first, rest, hcons⟩ := exists_cons_of_ne_nil (append_ne_nil_of_right_ne_nil
    init (cons_ne_nil last []))
  have hends : EndsWithSoa typ (first :: rest) := ⟨init, last, hcons.symm, hlast⟩
  rw [hcons, readLoop, if_neg (by simp), if_pos (endsWithSoa_iff.mp hends), ← hcons,
    dropLast_concat]

variable {parts : List (List α)}

theorem readLoop_append (hparts : ∀ rrsets ∈ parts, rrsets ≠ [] ∧ ¬EndsWithSoa typ rrsets)
    (reads : List (Read α)) : readLoop typ true (parts.map .message ++ reads) =
      (parts.flatten ++ (readLoop typ true reads).1, (readLoop typ true reads).2) := by
  induction parts with
  | nil => rfl
  | cons rrsets parts ih =>
    obtain ⟨hne, hends⟩ := hparts rrsets mem_cons_self
    obtain ⟨first, rest, rfl⟩ := exists_cons_of_ne_nil hne
    rw [map_cons, cons_append, readLoop, if_neg (by simp),
      if_neg (mt endsWithSoa_iff.mpr hends), ih fun m hm => hparts m (mem_cons_of_mem _ hm)]
    simp

theorem readLoop_fails (hparts : ∀ rrsets ∈ parts, ¬EndsWithSoa typ rrsets)
    (firstPackageValid : Bool) :
    ∃ err, (readLoop typ firstPackageValid (parts.map .message)).2 = some err := by
  induction parts generalizing firstPackageValid with
  | nil => exact ⟨_, rfl⟩
  | cons rrsets parts ih =>
    have hends := hparts rrsets mem_cons_self
    match rrsets with
    | [] => exact ⟨_, rfl⟩
    | first :: rest =>
      rw [map_cons, readLoop]
      split
      · exact ⟨_, rfl⟩
      · rw [if_neg (mt endsWithSoa_iff.mpr hends)]
        exact ih (fun m hm => hparts m (mem_cons_of_mem _ hm)) true

theorem readLoop_first {first : α} (hfirst : typ first = .soa) (rrsets : List α)
    (reads : List (Read α)) :
    readLoop typ false (.message (first :: rrsets) :: reads) =
      readLoop typ true (.message (first :: rrsets) :: reads) := by
  simp [readLoop, hfirst]

variable {firstPackageValid : Bool} {reads : List (Read α)}

theorem mem_of_mem_readLoop {x : α} (hx : x ∈ (readLoop typ firstPackageValid reads).1) :
    ∃ rrsets, .message rrsets ∈ reads ∧ x ∈ rrsets := by
  induction reads generalizing firstPackageValid with
  | nil => cases hx
  | cons read reads ih =>
    match read with
    | .failed | .malformed | .message [] => cases hx
    | .message (first :: rest) =>
      rw [readLoop] at hx
      split_ifs at hx
      · cases hx
      · exact ⟨first :: rest, mem_cons_self, mem_of_mem_dropLast hx⟩
      · rcases mem_append.mp hx with hx | hx
        · exact ⟨first :: rest, mem_cons_self, hx⟩
        · obtain ⟨rrsets, hmem, hx⟩ := ih hx
          exact ⟨rrsets, mem_cons_of_mem _ hmem, hx⟩

variable (typ) in
def WholeStream (reads : List (Read α)) (sent : List α) : Prop :=
  ∃ (parts : List (List α)) (closing : α) (rest : List (Read α)),
    reads = parts.map .message ++ rest ∧ parts.flatten = sent ++ [closing] ∧ typ closing = .soa

theorem readLoop_complete {sent : List α}
    (hsent : readLoop typ firstPackageValid reads = (sent, none)) : WholeStream typ reads sent := by
  induction reads generalizing firstPackageValid sent with
  | nil => cases hsent
  | cons read reads ih =>
    match read with
    | .failed | .malformed | .message [] => cases hsent
    | .message (first :: rest) =>
      rw [readLoop] at hsent
      split_ifs at hsent with hfirst hlast
      · cases hsent
      · cases hsent
        refine ⟨[first :: rest], _, reads, rfl, ?_, hlast⟩
        rw [flatten_singleton, dropLast_append_getLast]
      · obtain ⟨rfl, herr⟩ := Prod.mk.inj hsent
        obtain ⟨parts, closing, after, rfl, hparts, htyp⟩ := ih (Prod.ext rfl herr)
        refine ⟨(first :: rest) :: parts, closing, after, rfl, ?_, htyp⟩
        rw [flatten_cons, hparts, append_assoc]

theorem mem_of_mem_doAXFR {master : Master α} {x : α} (hx : x ∈ (doAXFR typ master).1) :
    ∃ rrsets, .message rrsets ∈ master.reads ∧ x ∈ rrsets := by
  unfold doAXFR at hx
  split_ifs at hx
  · cases hx
  · cases hx
  · exact mem_of_mem_readLoop hx

theorem doAXFR_complete {master : Master α} {sent : List α}
    (hsent : doAXFR typ master = (sent, none)) : WholeStream typ master.reads sent := by
  unfold doAXFR at hsent
  split_ifs at hsent
  · cases hsent
  · cases hsent
  · exact readLoop_complete hsent

end loop

end Vanguard.Auth
