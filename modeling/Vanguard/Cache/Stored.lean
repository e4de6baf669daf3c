import Vanguard.Cache.Handlers
import Vanguard.Dns.Store

namespace Vanguard.Cache

open Library Memory

def bare (r : RRset Rdata) : RRset Rdata := { r with ttl := 0 }

def Seen.cut (short : Bool) (s : Seen) : Seen :=
  { s with additional := if short then [] else s.additional }

variable {G : Ptr → Prop} {mem mem' mem'' : Memory} {m : Ptr}

/-- Only ttls were written, and flags and cleared sections of the message. -/
structure Trimmed (G : Ptr → Prop) (m : Ptr) (short : Bool) (mem mem' : Memory) : Prop where
  guarded : mem'.Guarded G
  others : ∀ g, G g → g ≠ m → mem'.seen g = mem.seen g
  self : mem'.seen m = Seen.cut short (mem.seen m)
  answer : (mem'.messages.load m).answer = (mem.messages.load m).answer
  arrays : mem'.arrays = mem.arrays
  rrsets : ∀ p, bare (mem'.rrsets.load p) = bare (mem.rrsets.load p)
  next : mem'.messages.next = mem.messages.next
  load : ∀ p, p ≠ m → mem'.messages.load p = mem.messages.load p

theorem Trimmed.refl (hguard : mem.Guarded G) : Trimmed G m false mem mem :=
  ⟨hguard, fun _ _ _ => rfl, rfl, rfl, rfl, fun _ => rfl, rfl, fun _ _ => rfl⟩

theorem Trimmed.trans {short short' : Bool} (h : Trimmed G m short mem mem')
    (h' : Trimmed G m short' mem' mem'') : Trimmed G m (short || short') mem mem'' where
  guarded := h'.guarded
  others g hg hne := (h'.others g hg hne).trans (h.others g hg hne)
  self := by
    rw [h'.self, h.self]
    cases short <;> cases short' <;> rfl
  answer := h'.answer.trans h.answer
  arrays := h'.arrays.trans h.arrays
  rrsets p := (h'.rrsets p).trans (h.rrsets p)
  next := h'.next.trans h.next
  load p hp := (h'.load p hp).trans (h.load p hp)

theorem trimmed_modifyMessage (hguard : mem.Guarded G) (hm : G m) (short : Bool)
    (f : Message Slice → Message Slice)
    (hquestion : ∀ msg, (f msg).question = msg.question)
    (hrcode : ∀ msg, (f msg).header.rcode = msg.header.rcode)
    (hanswer : ∀ msg, (f msg).answer = msg.answer)
    (hadditional : ∀ msg, (f msg).additional = if short then .nil else msg.additional) :
    Trimmed G m short mem (mem.modifyMessage m f) where
  guarded := by
    refine guarded_replace hguard (Keeps.refl hguard) hm f .nil ?_ (.inr ⟨rfl, rfl⟩)
      (.inl (hanswer _)) ?_
    · exact ⟨Slice.allocated_nil _, nofun⟩
    · rw [hadditional]
      cases short
      · exact .inl rfl
      · exact .inr rfl
  others g hg hne := seen_modifyMessage_of_ne (Keeps.refl hguard) hg hne f
  self := by
    have hload : (mem.modifyMessage m f).messages.load m = f (mem.messages.load m) :=
      Heap.load_write_self _ _ _
    simp only [seen, Seen.cut, hload, hquestion, hrcode, hanswer, hadditional]
    cases short <;> rfl
  answer := by
    have hload : (mem.modifyMessage m f).messages.load m = f (mem.messages.load m) :=
      Heap.load_write_self _ _ _
    rw [hload, hanswer]
  arrays := rfl
  rrsets _ := rfl
  next := rfl
  load _ hp := Heap.load_write_of_ne hp _

theorem trimmed_setTtl (hguard : mem.Guarded G) (hm : G m) (p : Ptr) (ttl : UInt32) :
    Trimmed G m false mem (mem.modifyRRset p (fun r => { r with ttl })) := by
  have hkeeps := keeps_modifyRRset hguard p (fun r => { r with ttl }) (fun _ => rfl)
  refine ⟨hkeeps.guarded hguard, fun g hg _ => hkeeps.seen_eq hg, hkeeps.seen_eq hm, rfl, rfl,
    fun q => ?_, rfl, fun _ _ => rfl⟩
  simp only [modifyRRset]
  by_cases hq : q = p
  · subst hq
    simp [bare]
  · rw [Heap.load_write_of_ne hq]

theorem trimmed_clampTtl (hm : G m) (positiveTtl : UInt32) (answers : List Ptr)
    (acc : Memory × UInt32) (hguard : acc.1.Guarded G) :
    Trimmed G m false acc.1 (answers.foldl (clampTtl positiveTtl) acc).1 := by
  induction answers generalizing acc with
  | nil => exact Trimmed.refl hguard
  | cons answer answers ih =>
    have hstep : Trimmed G m false acc.1 (clampTtl positiveTtl acc answer).1 := by
      simp only [clampTtl]
      split_ifs
      · exact Trimmed.refl hguard
      · exact trimmed_setTtl hguard hm answer positiveTtl
      · exact Trimmed.refl hguard
    exact hstep.trans (ih _ hstep.guarded)

theorem trimmed_clampSoa (hguard : mem.Guarded G) (hm : G m) (negativeTtl : UInt32)
    (auths : List Ptr) : Trimmed G m false mem (clampSoa negativeTtl mem auths).1 := by
  unfold clampSoa
  split
  · rename_i soa
    split
    · split
      · rename_i rdata _
        generalize (if rdata.minimum < negativeTtl then rdata.minimum else negativeTtl) = minTtl
        simp only []
        split_ifs
        · exact Trimmed.refl hguard
        · exact trimmed_setTtl hguard hm soa minTtl
      · exact Trimmed.refl hguard
    · exact Trimmed.refl hguard
  · exact Trimmed.refl hguard

section

variable (c : MessageCache) (now : Time) (hguard : mem.Guarded G) (hm : G m)

include hguard hm

theorem trimmed_positive :
    Trimmed G m c.shortAnswer mem (c.positiveMessageToCache now mem m).1 := by
  cases hshort : c.shortAnswer with
  | false =>
    simp only [MessageCache.positiveMessageToCache, hshort]
    exact trimmed_clampTtl hm c.positiveTtl _ (mem, c.positiveTtl) hguard
  | true =>
    have hclear := trimmed_modifyMessage hguard hm true
      (fun msg => clearAdditional (clearAuth msg)) (fun _ => rfl) (fun _ => rfl) (fun _ => rfl)
      (fun _ => rfl)
    simp only [MessageCache.positiveMessageToCache, hshort, if_true]
    exact hclear.trans (trimmed_clampTtl hm c.positiveTtl _ (_, c.positiveTtl) hclear.guarded)

theorem trimmed_negative :
    Trimmed G m c.shortAnswer mem (c.negativeMessageToCache now mem m).1 := by
  have hsoa := trimmed_clampSoa hguard hm c.negativeTtl ((mem.messages.load m).auth.read mem.arrays)
  cases hshort : c.shortAnswer with
  | false =>
    simp only [MessageCache.negativeMessageToCache, hshort]
    exact hsoa
  | true =>
    simp only [MessageCache.negativeMessageToCache, hshort, if_true]
    exact hsoa.trans (trimmed_modifyMessage hsoa.guarded hm true clearAdditional (fun _ => rfl)
      (fun _ => rfl) (fun _ => rfl) (fun _ => rfl))

theorem trimmed_messageToCache : Trimmed G m c.shortAnswer mem (c.messageToCache now mem m).1 := by
  have hflag := trimmed_modifyMessage hguard hm false
    (fun msg => { msg with header := { msg.header with ra := true } }) (fun _ => rfl)
    (fun _ => rfl) (fun _ => rfl) (fun _ => rfl)
  unfold MessageCache.messageToCache
  simp only []
  split
  · exact hflag.trans (trimmed_positive c now hflag.guarded hm)
  · exact hflag.trans (trimmed_negative c now hflag.guarded hm)

end

theorem message_messageToCache (c : MessageCache) (now : Time) (mem : Memory) (m : Ptr) :
    (c.messageToCache now mem m).2.message = m := by
  simp only [MessageCache.messageToCache]
  split
  · rfl
  · rfl

theorem Trimmed.bare_answer {short : Bool} (h : Trimmed G m short mem mem') :
    (mem'.view m).answer.map bare = (mem.view m).answer.map bare := by
  simp only [view, Message.map, rrsetsOf, h.answer, h.arrays, List.map_map]
  exact List.map_congr_left fun p _ => h.rrsets p

end Vanguard.Cache
