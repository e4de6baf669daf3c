import Vanguard.Cache.Spoiling

namespace Vanguard.Cache

open Library LocalData Memory Option

variable {P : Type} (rt : Runtime) (conf : ViewConf P)

/-- The response is ready for `hijack` and what comes after it. -/
structure Ready [NameTree P LocalPolicy] (ctx : Ctx) : Prop where
  spares : ∀ r, ctx.client.response = some r →
    ctx.server.mem.SparesAll (Added ctx.server.trace) (ctx.server.mem.messages.load r).answer
  hijack : ∀ r, ctx.client.response = some r → Added ctx.server.trace r →
    rewritesByHijack conf ctx.client.question (ctx.server.mem.view r) = false
  filter : ∀ r, ctx.client.response = some r → Added ctx.server.trace r →
    LeftByFilter conf ctx.client.ip (ctx.server.mem.seen r)

variable {ctx : Ctx}

theorem Ready.of_not_added [NameTree P LocalPolicy] {r : Ptr}
    (hresponse : ctx.client.response = some r) (hnot : ¬Added ctx.server.trace r)
    (hspares : ctx.server.mem.SparesAll (Added ctx.server.trace)
      (ctx.server.mem.messages.load r).answer) : Ready conf ctx where
  spares r' h := by
    cases h.symm.trans hresponse
    exact hspares
  hijack r' h hadded := by
    cases h.symm.trans hresponse
    exact absurd hadded hnot
  filter r' h hadded := by
    cases h.symm.trans hresponse
    exact absurd hadded hnot

def Upto (Q : Ctx → Prop) (ctx : Ctx) : Prop := Inv rt ctx.server ∧ (ctx.fault = none → Q ctx)

variable {rt conf}

theorem Upto.transfer {Q R : Ctx → Prop} {next transferResponse : Ctx → Ctx}
    (hnext : Upto rt Q (next ctx))
    (htransfer : ∀ ctx, Inv rt ctx.server → ctx.fault = none → Q ctx →
      Upto rt R (transferResponse ctx)) :
    Upto rt R (transferAdaptor transferResponse next ctx) := by
  unfold transferAdaptor
  cases hfault : (next ctx).fault with
  | some f => exact ⟨by simpa [hfault] using hnext.1, fun h => by simp [hfault] at h⟩
  | none => simpa [hfault] using htransfer _ hnext.1 hfault (hnext.2 hfault)

theorem client_cacheHandleQuery (rt : Runtime) (query : Query) (ctx : Ctx) :
    (cacheHandleQuery rt query ctx).client.ip = ctx.client.ip ∧
      (cacheHandleQuery rt query ctx).client.question = ctx.client.question ∧
      (cacheHandleQuery rt query ctx).fault = ctx.fault := by
  unfold cacheHandleQuery
  dsimp only
  split <;> exact ⟨rfl, rfl, rfl⟩

theorem Ready.first_pass [NameTree P LocalPolicy] {server : Server} (h : Inv rt server)
    {query : Query} (hreply : replyRewritten rt conf server query = false) :
    Inv rt (cacheHandleQuery rt query ⟨server, newClient query, none⟩).server ∧
      Ready conf (cacheHandleQuery rt query ⟨server, newClient query, none⟩) ∧
      ∀ r, (cacheHandleQuery rt query ⟨server, newClient query, none⟩).client.response = some r →
        r < (cacheHandleQuery rt query
          ⟨server, newClient query, none⟩).server.mem.messages.next := by
  obtain ⟨hip, hquestion, -⟩ := client_cacheHandleQuery rt query ⟨server, newClient query, none⟩
  have hpass : Passed rt query ⟨server, newClient query, none⟩ _ := Inv.pass h query
  generalize cacheHandleQuery rt query ⟨server, newClient query, none⟩ = ctx at *
  cases hpass with
  | detached r hresponse hd =>
    refine ⟨hd.inv, .of_not_added conf hresponse hd.fresh hd.spares, fun r' hr => ?_⟩
    cases hr.symm.trans hresponse
    exact hd.lt
  | unanswered hresponse hserver =>
    have hnone : ∀ r, ctx.client.response ≠ some r := fun r hr => by
      simp [hresponse, newClient] at hr
    exact ⟨hserver ▸ h, ⟨fun r hr => absurd hr (hnone r), fun r hr => absurd hr (hnone r),
      fun r hr => absurd hr (hnone r)⟩, fun r hr => absurd hr (hnone r)⟩
  | stored v r hresponse hmiss hmessage hcache hs =>
    have hstored : storedReply rt query server query.question = some v := by
      simp only [newClient] at hmiss hmessage hcache
      simp [storedReply, hmiss, hmessage, hcache]
    simp only [replyRewritten, hstored, any_some, Bool.or_eq_false_iff] at hreply
    have hseen := hs.inv.faithful r v hs.added
    refine ⟨hs.inv, ⟨fun r' hr => ?_, fun r' hr _ => ?_, fun r' hr _ => ?_⟩, fun r' hr => ?_⟩
    · cases hr.symm.trans hresponse
      exact hs.inv.guarded.spares r ⟨v, hs.added⟩
    · cases hr.symm.trans hresponse
      rw [hquestion, ← hreply.1]
      exact rewritesByHijack_eq_of_bare conf _ (congrArg Seen.rcode hseen) hs.answer
    · cases hr.symm.trans hresponse
      rw [hseen, hip, hs.short]
      exact leftByFilter_cutOff conf hreply.2
    · cases hr.symm.trans hresponse
      exact hs.lt

theorem Inv.pass_unstored (h : Inv rt ctx.server) (query : Query)
    (hstored : storedReply rt query ctx.server ctx.client.question = none) :
    ((cacheHandleQuery rt query ctx).client.response = ctx.client.response ∧
        (cacheHandleQuery rt query ctx).server = ctx.server) ∨
      ∃ r, (cacheHandleQuery rt query ctx).client.response = some r ∧
        Detached rt ctx.server (cacheHandleQuery rt query ctx).server r := by
  cases h.pass query with
  | detached r hresponse hd => exact .inr ⟨r, hresponse, hd⟩
  | unanswered hresponse hserver => exact .inl ⟨hresponse, hserver⟩
  | stored v r _ hmiss hmessage hcache _ =>
    simp [storedReply, hmiss, hmessage, hcache] at hstored

theorem Ready.synthesize [NameTree P LocalPolicy] (h : Inv rt ctx.server) {r : Ptr}
    (hresponse : ctx.client.response = some r) (hnot : ¬Added ctx.server.trace r) (q : Question)
    {original : Ptr} (hspares : ctx.server.mem.SparesAll (Added ctx.server.trace)
      (ctx.server.mem.messages.load original).answer) :
    Upto rt (Ready conf) (synthesizeDNS64Response rt conf q original ctx) := by
  obtain ⟨hkeeps, hmerged⟩ := keeps_mergeAnswers rt conf
    (ctx.server.mem.messages.load r).answer
    (List.range (ctx.server.mem.messages.load r).answer.len) h.guarded hspares
  simp only [synthesizeDNS64Response, hresponse]
  generalize mergeAnswers rt conf _ _ _ _ = out at hkeeps hmerged ⊢
  obtain ⟨mem, merged | merged⟩ := out
  · exact ⟨h.of_keeps hkeeps, nofun⟩
  · have hwrite := keeps_modifyMessage (hkeeps.guarded h.guarded) hnot
      (fun msg => { msg with question := q, answer := merged })
    refine ⟨h.of_keeps (hkeeps.trans hwrite), fun _ => .of_not_added conf rfl hnot ?_⟩
    have hload := Heap.load_write_self mem.messages r
      { mem.messages.load r with question := q, answer := merged }
    simp only [modifyMessage, hload]
    exact hwrite.sparesAll (hmerged merged rfl)

theorem Ready.second_pass [NameTree P LocalPolicy] (h : Inv rt ctx.server) (hready : Ready conf ctx)
    {r : Ptr} (hresponse : ctx.client.response = some r) (hlt : r < ctx.server.mem.messages.next)
    (query : Query) (nextName : Name)
    (hstored : storedReply rt query ctx.server ⟨nextName, .a, ctx.client.question.cls⟩ = none) :
    Upto rt (Ready conf) (synthesizeDNS64Response rt conf ctx.client.question r
      (cacheHandleQuery rt query (aRecordQuery nextName ctx))) := by
  obtain ⟨hip, -, -⟩ := client_cacheHandleQuery rt query (aRecordQuery nextName ctx)
  have hpass := Inv.pass_unstored (show Inv rt (aRecordQuery nextName ctx).server from h) query
    hstored
  generalize cacheHandleQuery rt query (aRecordQuery nextName ctx) = ctx' at hip hpass ⊢
  rcases hpass with ⟨hnone, hserver⟩ | ⟨r', hresponse', hd⟩
  · -- The resolver has nothing, and the client gets the response of the first pass back.
    have hserver' : ctx'.server = ctx.server := hserver
    have hnone' : ctx'.client.response = none := hnone
    simp only [synthesizeDNS64Response, hnone']
    refine ⟨hserver' ▸ h, fun _ => ⟨fun p hp => ?_, fun p hp hadded => ?_, fun p hp hadded => ?_⟩⟩
    · cases hp
      rw [hserver']
      exact hready.spares r hresponse
    · cases hp
      rw [hserver'] at hadded ⊢
      exact hready.hijack r hresponse hadded
    · cases hp
      rw [hserver'] at hadded ⊢
      rw [hip]
      exact hready.filter r hresponse hadded
  · refine Ready.synthesize hd.inv hresponse' hd.fresh _ ?_
    rw [hd.messages.load_eq r hlt, hd.added]
    exact hd.keeps.sparesAll (hready.spares r hresponse)

theorem ready_dns64HandleQuery [NameTree P LocalPolicy] {server : Server} (h : Inv rt server)
    {query : Query} (hreply : replyRewritten rt conf server query = false)
    (hsynthesis : synthesisStored rt conf server query = false) :
    Upto rt (Ready conf) (dns64HandleQuery rt conf query ⟨server, newClient query, none⟩) := by
  obtain ⟨hinv, hready, hlt⟩ := Ready.first_pass h hreply
  obtain ⟨-, hquestion, -⟩ := client_cacheHandleQuery rt query ⟨server, newClient query, none⟩
  simp only [synthesisStored] at hsynthesis
  simp only [dns64HandleQuery]
  generalize cacheHandleQuery rt query ⟨server, newClient query, none⟩ = ctx at *
  have hquestion' : query.question = ctx.client.question := hquestion.symm
  cases hresponse : ctx.client.response with
  | none => exact ⟨hinv, fun _ => hready⟩
  | some r =>
    simp only
    by_cases hneed : needDNS64Synthesis conf ctx.client.question (ctx.server.mem.view r) = true
    · rw [if_pos hneed]
      simp only [hquestion', hresponse, any_some, hneed, Bool.true_and] at hsynthesis
      cases hname : realQueryName ctx.client.question (some (ctx.server.mem.view r)) with
      | error f => exact ⟨hinv, nofun⟩
      | ok nextName =>
        simp only [hname, isSome_eq_false_iff, isNone_iff_eq_none] at hsynthesis
        exact Ready.second_pass hinv hready hresponse (hlt r hresponse) query nextName hsynthesis
    · rw [if_neg hneed]
      exact ⟨hinv, fun _ => hready⟩

def Settled (conf : ViewConf P) (ctx : Ctx) : Prop :=
  ∀ r, ctx.client.response = some r → Added ctx.server.trace r →
    LeftByFilter conf ctx.client.ip (ctx.server.mem.seen r)

theorem Inv.respond (h : Inv rt ctx.server) (rcode : Rcode) :
    Inv rt (Cache.respond rcode ctx).server ∧
      ∃ r, (Cache.respond rcode ctx).client.response = some r ∧
        ¬Added (Cache.respond rcode ctx).server.trace r ∧
        ((Cache.respond rcode ctx).server.mem.messages.load r).answer = .nil := by
  refine ⟨h.of_keeps ((extends_allocMessage _ _).keeps h.guarded), ctx.server.mem.messages.next,
    rfl, ?_, ?_⟩
  · exact fun hold => lt_irrefl _ (h.guarded.lt _ hold)
  · exact congrArg Message.answer (Heap.load_alloc ctx.server.mem.messages _)

theorem Inv.addLocalRRset (h : Inv rt ctx.server) {m : Ptr}
    (hresponse : ctx.client.response = some m) (hnot : ¬Added ctx.server.trace m)
    (hspares : ctx.server.mem.SparesAll (Added ctx.server.trace)
      (ctx.server.mem.messages.load m).answer) (l : RRset Rdata) : Upto rt (Settled conf)
      { ctx with
        server := { ctx.server with mem := Cache.addLocalRRset rt l m ctx.server.mem } } := by
  refine ⟨h.of_keeps (keeps_addLocalRRset rt h.guarded l hnot hspares), fun _ r hr hadded => ?_⟩
  cases hr.symm.trans hresponse
  exact absurd hadded hnot

theorem settled_hijackTransferResponse [NameTree P LocalPolicy] (ctx : Ctx) (h : Inv rt ctx.server)
    (hready : Ready conf ctx) :
    Upto rt (Settled conf) (hijackTransferResponse rt conf ctx) := by
  have hsame : Upto rt (Settled conf) ctx := ⟨h, fun _ => hready.filter⟩
  have hfresh : ∀ rcode, Upto rt (Settled conf) (respond rcode ctx) := by
    intro rcode
    obtain ⟨hinv, r, hresponse, hnot, -⟩ := h.respond rcode
    refine ⟨hinv, fun _ r' hr hadded => ?_⟩
    cases hr.symm.trans hresponse
    exact absurd hadded hnot
  unfold hijackTransferResponse
  dsimp only
  split
  · exact hsame
  rename_i hrcode
  cases hpolicies : conf.policies with
  | none => exact hsame
  | some policies =>
    dsimp only
    cases hname : realQueryName ctx.client.question
      (ctx.client.response.map ctx.server.mem.view) with
    | error f => exact ⟨h, nofun⟩
    | ok qname =>
      dsimp only
      cases hanswer : findAnswer policies qname ctx.client.question.typ with
      | none => exact hsame
      | some answer =>
        cases answer with
        | nxDomain => exact hfresh .nxDomain
        | nxRRset => exact hfresh .noError
        | rrset l =>
          simp only [applyAnswer]
          cases hresponse : ctx.client.response with
          | none =>
            obtain ⟨hinv, r, hr, hnot, hnil⟩ := h.respond .noError
            simp only [isSome_none, Bool.false_eq_true, if_false, hr]
            exact hinv.addLocalRRset hr hnot (hnil ▸ fun t _ => Slice.spares_nil t) l
          | some m =>
            simp only [isSome_some, if_true, hresponse]
            refine h.addLocalRRset hresponse (fun hadded => ?_) (hready.spares m hresponse) l
            have hleft := hready.hijack m hresponse hadded
            simp only [hresponse, map_some, any_some, decide_eq_true_eq, not_not] at hrcode hname
            simp [rewritesByHijack, hrcode, hpolicies, hname, hanswer] at hleft

theorem settled_sortListTransferResponse (ctx : Ctx) (h : Inv rt ctx.server)
    (hsettled : Settled conf ctx) :
    Upto rt (Settled conf) (sortListTransferResponse rt conf ctx) := by
  unfold sortListTransferResponse
  cases hresponse : ctx.client.response with
  | none => exact ⟨h, fun _ => hsettled⟩
  | some r =>
    have hkeeps := keeps_sortAnswers rt conf ctx.client.ip (ctx.server.mem.messages.load r).answer
      (List.range (ctx.server.mem.messages.load r).answer.len) h.guarded
    refine ⟨h.of_keeps hkeeps, fun _ r' hr hadded => ?_⟩
    have hseen := hkeeps.seen_eq hadded
    dsimp only at hseen ⊢
    rw [hseen]
    exact hsettled r' hr hadded

theorem inv_aaaaFilterTransferResponse (ctx : Ctx) (h : Inv rt ctx.server)
    (hsettled : Settled conf ctx) :
    Upto rt (fun _ => True) (aaaaFilterTransferResponse rt conf ctx) := by
  refine ⟨?_, fun _ => trivial⟩
  unfold aaaaFilterTransferResponse
  cases hresponse : ctx.client.response with
  | none => exact h
  | some r =>
    dsimp only
    split
    · rename_i hboth
      simp only [Bool.and_eq_true, decide_eq_true_eq] at hboth
      by_cases hadded : Added ctx.server.trace r
      · obtain ⟨hanswer, hadditional⟩ := hsettled r hresponse hadded hboth.1 hboth.2
        obtain ⟨hguard, hseen⟩ := seen_removeAaaaRecords rt h.guarded hadded hanswer hadditional
        exact ⟨hguard, fun m v hm => (hseen m ⟨v, hm⟩).trans (h.faithful m v hm), h.indexed,
          h.isolated⟩
      · exact h.of_keeps (keeps_removeAaaaRecords rt h.guarded hadded)
    · exact h

theorem Inv.step [NameTree P LocalPolicy] {server server' : Server} {input : Input}
    (h : Inv rt server) (hunspoiled : Unspoiled rt conf server input)
    (hstep : Cache.step rt conf server input = .ok server') : Inv rt server' := by
  cases input with
  | query q =>
    cases hstep
    have hdns64 := ready_dns64HandleQuery h hunspoiled.1 hunspoiled.2
    have hhijack := hdns64.transfer fun ctx hinv _ => settled_hijackTransferResponse ctx hinv
    have hsort := hhijack.transfer fun ctx hinv _ => settled_sortListTransferResponse ctx hinv
    exact (hsort.transfer fun ctx hinv _ => inv_aaaaFilterTransferResponse ctx hinv).1
  | prefetch now reply =>
    cases hstep
    cases hmessage : reply.message with
    | none => simpa [fetch, hmessage] using h
    | some v =>
      cases hcache : reply.cacheAnswer with
      | false =>
        obtain ⟨r, -, hd⟩ := h.fetch_uncached now hmessage hcache
        exact hd.inv
      | true =>
        obtain ⟨r, -, hs⟩ := h.fetch_cached now hmessage hcache
        exact hs.inv

end Vanguard.Cache
