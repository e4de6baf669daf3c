import Vanguard.Query.Silence

namespace Vanguard.Query

open LocalData (LocalPolicy responseWithLocalData realQueryName)

/-- The response reports this error of the selector, without records. -/
def Refused (tsig : TSIG) (rcode : Rcode) (result : Except Stop Client) : Prop :=
  ∃ c r, result = .ok c ∧ c.response = some r ∧ r.producer = .selector ∧
    r.tsig = some (tsig.report rcode) ∧
    r.message.answer = [] ∧ r.message.auth = [] ∧ r.message.additional = []

def Outcome (stays : Bool) (r : Response) (result : Except Stop Client) : Prop :=
  if stays = true then ∃ c', result = .ok c' ∧ Kept r c' else ∀ c', result = .ok c' → Foreign c'

section transfers

variable {P : Type} {r : Response} {c : Client} (views : String → Cache.ViewConf P)

def KeepsPlaceholder (resolve : Resolve) : Prop :=
  ∀ r c, Kept r c → ∃ c', resolve c = .ok c' ∧ Kept r c'

theorem Outcome.transferAdaptor {stays : Bool} {transferResponse next : Resolve}
    (hkeeps : KeepsPlaceholder transferResponse) (hforeign : KeepsForeign transferResponse)
    (hnext : Outcome stays r (next c)) :
    Outcome stays r (transferAdaptor transferResponse next c) := by
  unfold Outcome Query.transferAdaptor at *
  split_ifs at hnext ⊢
  · obtain ⟨c', hc', hkept⟩ := hnext
    rw [hc']
    exact hkeeps r c' hkept
  · intro c' hc'
    split at hc'
    · cases hc'
    · next client hclient => exact hforeign client c' (hnext client hclient) hc'

theorem keepsPlaceholder_aaaaFilter : KeepsPlaceholder (aaaaFilterTransferResponse views) := by
  rintro r c ⟨r', hr', hplaceholder, htsig⟩
  simp only [aaaaFilterTransferResponse, hr']
  split_ifs
  · refine ⟨_, rfl, _, rfl, ⟨hplaceholder.producer, ?_⟩, htsig⟩
    have hbare := hplaceholder.bare
    refine ⟨hbare.rcode, hbare.anCount, hbare.nsCount, ?_, hbare.auth, ?_⟩
    · simp [removeAaaaRecords, hbare.answer]
    · simp [removeAaaaRecords, hbare.additional]
  · exact ⟨c, rfl, r', hr', hplaceholder, htsig⟩

theorem keepsPlaceholder_sortList (rt : Cache.Runtime) :
    KeepsPlaceholder (sortListTransferResponse rt views) := by
  rintro r c ⟨r', hr', hplaceholder, htsig⟩
  have hbare := hplaceholder.bare
  simp only [sortListTransferResponse, hr', hbare.answer, sortAnswers]
  refine ⟨_, rfl, _, rfl, ⟨hplaceholder.producer, ?_⟩, htsig⟩
  exact ⟨hbare.rcode, hbare.anCount, hbare.nsCount, rfl, hbare.auth, hbare.additional⟩

theorem keepsPlaceholder_hijack [NameTree P LocalPolicy] :
    KeepsPlaceholder (hijackTransferResponse views) := by
  rintro r c ⟨r', hr', hplaceholder, htsig⟩
  have hrcode : ¬Rcode.noError = Rcode.nxDomain := by decide
  refine ⟨c, ?_, r', hr', hplaceholder, htsig⟩
  simp [hijackTransferResponse, hr', hplaceholder.bare.rcode, hrcode]

theorem keepsForeign_aaaaFilter : KeepsForeign (aaaaFilterTransferResponse views) := by
  intro c c' hc hc'
  unfold aaaaFilterTransferResponse at hc'
  split at hc'
  · cases hc'
    exact hc
  · next r hr =>
    split_ifs at hc'
    · cases hc'
      exact foreign_of_eq rfl (hc r hr)
    · cases hc'
      exact hc

theorem keepsForeign_sortList (rt : Cache.Runtime) :
    KeepsForeign (sortListTransferResponse rt views) := by
  intro c c' hc hc'
  unfold sortListTransferResponse at hc'
  split at hc'
  · cases hc'
    exact hc
  · next r hr =>
    split at hc'
    · cases hc'
    · cases hc'
      exact foreign_of_eq rfl (hc r hr)

theorem keepsForeign_hijack [NameTree P LocalPolicy] :
    KeepsForeign (hijackTransferResponse views) := by
  intro c c' hc hc'
  unfold hijackTransferResponse at hc'
  split_ifs at hc'
  · cases hc'
    exact hc
  · split at hc'
    · cases hc'
    · next hlocal =>
      cases hc'
      exact (written_responseWithLocalData hlocal).foreign hc

theorem foreign_synthesizeDNS64Response {converters : List Cache.Dns64Converter}
    {question : Question} {original : Response} {c c' : Client} (hc : Foreign c)
    (horiginal : c.response = none → original.producer ≠ .selector)
    (hc' : synthesizeDNS64Response converters question original c = .ok c') : Foreign c' := by
  unfold synthesizeDNS64Response at hc'
  dsimp only at hc'
  split at hc'
  · next hnone =>
    cases hc'
    exact foreign_of_eq rfl (horiginal hnone)
  · next r hr =>
    split at hc'
    · cases hc'
    · cases hc'
      exact foreign_of_eq rfl (hc r hr)

end transfers

section chain

variable {P : Type} [NameTree P LocalPolicy] {conf : Conf P} {passes : Passes P} {c : Client}
  {r : Response}

/-- `dns64` makes a query for addresses for a client that comes back without an answer. -/
def synthesizes (conf : Conf P) (c : Client) : Bool :=
  (conf.views c.view).converters ≠ [] && c.question.typ = .aaaa

/-- Neither the cache nor anybody else answers, nor the query for addresses. -/
def Passes.stays (passes : Passes P) (conf : Conf P) (c : Client) : Bool :=
  passes.first.found.isNone && !passes.first.answers conf.back c &&
    (!synthesizes conf c || passes.second.silent conf.back (c.aRecordQuery c.question.name))

theorem respond_marked (pass : Pass P) (back : BackConf) (hr : c.response = some r)
    (hplaceholder : Placeholder r) :
    if (pass.found.isNone && !pass.answers back c) = true then
      ∃ l, pass.respond back c = .ok (({ c with cacheHit := false } : Client).fill l) ∧
        Kept r (({ c with cacheHit := false } : Client).fill l)
    else ∀ c', pass.respond back c = .ok c' → Foreign c' := by
  cases hfound : pass.found with
  | some message =>
    rw [Option.isNone_some, Bool.false_and, if_neg (by simp)]
    exact fun c' hc' => foreign_of_hit (by simp [hfound]) hc'
  | none =>
    have hbehind := behindCache_marked pass back (c := { c with cacheHit := false }) hr hplaceholder
    have hanswers : pass.answers back { c with cacheHit := false } = pass.answers back c := rfl
    rw [hanswers] at hbehind
    rw [Option.isNone_none, Bool.true_and, respond_of_miss hfound]
    cases hcase : pass.answers back c with
    | true =>
      rw [hcase, if_pos rfl] at hbehind
      rw [Bool.not_true, if_neg (by simp)]
      exact fun c' hc' => (hbehind c' hc').foreign
    | false =>
      rw [hcase, if_neg (by simp)] at hbehind
      rw [Bool.not_false, if_pos rfl]
      exact hbehind

theorem keepsForeign_dns64 (conf : Conf P) (second : Pass P) :
    KeepsForeign (dns64TransferResponse conf second) := by
  intro c c' hc hc'
  unfold dns64TransferResponse at hc'
  split at hc'
  · cases hc'
    exact hc
  · next original horiginal =>
    split_ifs at hc'
    · split at hc'
      · cases hc'
      · next nextName _ =>
        split at hc'
        · cases hc'
        · next answered hanswered =>
          have hsecond : Foreign answered :=
            keepsForeign_respond second conf.back _ _ (foreign_of_none rfl) hanswered
          exact foreign_synthesizeDNS64Response hsecond (fun _ => hc original horiginal) hc'
    · cases hc'
      exact hc

omit [NameTree P LocalPolicy] in
theorem needDNS64Synthesis_bare {m : Message Section} (hbare : Bare m) (conf : Conf P)
    (c : Client) :
    Cache.needDNS64Synthesis (conf.views c.view) c.question m = synthesizes conf c := by
  simp [Cache.needDNS64Synthesis, synthesizes, hbare.rcode, hbare.answer]

theorem dns64TransferResponse_kept (conf : Conf P) (second : Pass P) (hkept : Kept r c) :
    Outcome (!synthesizes conf c || second.silent conf.back (c.aRecordQuery c.question.name)) r
      (dns64TransferResponse conf second c) := by
  obtain ⟨r', hr', hplaceholder, htsig⟩ := id hkept
  have hname : realQueryName c.question (some r'.message) = .ok c.question.name := by
    simp [realQueryName, hplaceholder.bare.answer]
  simp only [dns64TransferResponse, hr', needDNS64Synthesis_bare hplaceholder.bare, hname]
  cases synthesizes conf c with
  | false => exact ⟨c, rfl, hkept⟩
  | true =>
    have hsecond : Silence _ _ (second.respond conf.back (c.aRecordQuery c.question.name)) :=
      respond_silence rfl second conf.back
    rw [Bool.not_true, Bool.false_or, if_pos rfl]
    unfold Silence at hsecond
    unfold Outcome
    split_ifs at hsecond ⊢
    · -- Nobody answers the query for addresses, and the placeholder is put back.
      rw [hsecond]
      exact ⟨_, rfl, r', rfl, hplaceholder, htsig⟩
    · intro c' hc'
      split at hc'
      · cases hc'
      · next answered hanswered =>
        have hforeign : Foreign answered :=
          keepsForeign_respond second conf.back _ _ (foreign_of_none rfl) hanswered
        exact foreign_synthesizeDNS64Response hforeign
          (fun hnone => absurd hnone (hsecond answered hanswered)) hc'

section

variable (conf : Conf P) (passes : Passes P) (hr : c.response = some r)
  (hplaceholder : Placeholder r)

include hr hplaceholder

theorem dns64HandleQuery_marked :
    Outcome (passes.stays conf c) r (dns64HandleQuery conf passes c) := by
  have hfirst := respond_marked passes.first conf.back hr hplaceholder
  unfold Passes.stays dns64HandleQuery transferAdaptor
  cases hcase : passes.first.found.isNone && !passes.first.answers conf.back c with
  | false =>
    rw [hcase, if_neg (by simp)] at hfirst
    rw [Bool.false_and]
    intro c' hc'
    split at hc'
    · cases hc'
    · next client hclient =>
      exact keepsForeign_dns64 conf passes.second client c' (hfirst client hclient) hc'
  | true =>
    rw [hcase, if_pos rfl] at hfirst
    obtain ⟨l, hl, hkept⟩ := hfirst
    rw [Bool.true_and, hl]
    exact dns64TransferResponse_kept conf passes.second hkept

theorem behindSelector_marked :
    Outcome (!conf.allowQuery c || passes.stays conf c) r (behindSelector conf passes c) := by
  have hback : Outcome (passes.stays conf c) r (transferHandleQuery conf passes c) :=
    (((dns64HandleQuery_marked conf passes hr hplaceholder).transferAdaptor
      (keepsPlaceholder_hijack conf.views) (keepsForeign_hijack conf.views)).transferAdaptor
      (keepsPlaceholder_sortList conf.views conf.rt) (keepsForeign_sortList conf.views conf.rt)
      ).transferAdaptor (keepsPlaceholder_aaaaFilter conf.views)
        (keepsForeign_aaaaFilter conf.views)
  unfold behindSelector filterHandleQuery
  cases hallow : conf.allowQuery c with
  | false => exact ⟨c, rfl, kept_self hr hplaceholder⟩
  | true =>
    rw [if_neg (by simp), Bool.not_true, Bool.false_or]
    unfold Outcome at hback ⊢
    split_ifs at hback ⊢
    · obtain ⟨c', hc', hkept⟩ := hback
      obtain ⟨r', hr', hplaceholder', -⟩ := id hkept
      have hrcode : ¬Rcode.noError = Rcode.servFail := by decide
      have hallowed : allowResponse conf.dropSrvFailed c'.response = true := by
        simp [allowResponse, hr', hplaceholder'.bare.rcode, hrcode]
      refine ⟨c', ?_, hkept⟩
      simp only [hc', hallowed, if_true]
    · intro c' hc'
      split at hc'
      · cases hc'
      · next client hclient =>
        split_ifs at hc'
        · cases hc'
          exact hback c' hclient
        · cases hc'
          exact foreign_of_none rfl

end

theorem Refused.not_foreign {tsig : TSIG} {rcode : Rcode} {result : Except Stop Client}
    (hrefused : Refused tsig rcode result) : ¬∀ c', result = .ok c' → Foreign c' := by
  obtain ⟨c', r', hc', hr', hproducer, -⟩ := hrefused
  exact fun hforeign => hforeign c' hc' r' hr' hproducer

theorem foreign_k8sHandleQuery {k8sAnswer : Packet → Option (Message Section)} {next : Resolve}
    {c' : Client} (hk8s : k8sAnswer c.request ≠ none)
    (hc' : k8sHandleQuery k8sAnswer next c = .ok c') : Foreign c' := by
  obtain ⟨msg, hmsg⟩ := Option.ne_none_iff_exists'.mp hk8s
  simp only [k8sHandleQuery, hmsg] at hc'
  split at hc'
  · cases hc'
  · cases hc'
    exact foreign_of_eq rfl (by simp)
  · split at hc'
    · cases hc'
    · split at hc'
      · cases hc'
      · split at hc'
        · next hnone =>
          cases hc'
          exact foreign_of_none hnone
        · cases hc'
          exact foreign_of_eq rfl (by simp [mergeK8s])

/-- A rejected signature is reported exactly if no handler on the way answers the query. -/
theorem bad_signature_refused_iff (conf : Conf P) (passes : Passes P) (client c : Client)
    (tsig : TSIG) (rcode : Rcode) (hnew : client.response = none)
    (hselector : atSelector conf.k8sAnswer client = some c)
    (hrejects : conf.mgr.Rejects c tsig rcode) :
    Refused tsig rcode (handleQuery conf passes client) ↔
      conf.k8sAnswer client.request = none ∧
      (conf.allowQuery (SelectorMgr.setTsig c (tsig.report rcode)) = false ∨
        passes.stays conf (SelectorMgr.setTsig c (tsig.report rcode)) = true) := by
  by_cases hk8s : conf.k8sAnswer client.request = none
  · obtain rfl : client = c := by simpa [atSelector, hk8s] using hselector
    have hquery : handleQuery conf passes client =
        behindSelector conf passes (SelectorMgr.setTsig client (tsig.report rcode)) := by
      simp only [handleQuery, k8sHandleQuery, hk8s, selectorHandleQuery,
        SelectorMgr.selectView_of_rejects hrejects]
    obtain ⟨r, hr, hplaceholder, htsig⟩ := placeholder_setTsig hnew (tsig.report rcode)
    have houtcome := behindSelector_marked conf passes hr hplaceholder
    rw [hquery, and_iff_right hk8s]
    unfold Outcome at houtcome
    split_ifs at houtcome with hstays
    · obtain ⟨c', hc', r', hr', hplaceholder', htsig'⟩ := houtcome
      have hbare := hplaceholder'.bare
      refine iff_of_true ⟨c', r', hc', hr', hplaceholder'.producer, htsig'.trans htsig,
        hbare.answer, hbare.auth, hbare.additional⟩ ?_
      simpa using hstays
    · refine iff_of_false (fun hrefused => hrefused.not_foreign houtcome) ?_
      simpa using hstays
  · refine iff_of_false (fun hrefused => ?_) fun hright => hk8s hright.1
    exact hrefused.not_foreign fun c' hc' => foreign_k8sHandleQuery hk8s hc'

end chain

def selectorConf : Conf (NameTable LocalPolicy) where
  k8sAnswer _ := none
  mgr := keyedMgr
  allowQuery _ := true
  dropSrvFailed := false
  rt := ⟨fun _ => 0, id, fun _ => .refl _, fun _ l => l, fun _ _ => .refl _, id⟩
  views _ := ⟨none, fun _ _ => false, fun _ => none, none, []⟩
  back := forwarderConf

theorem rejects_signedQuery :
    keyedMgr.Rejects (signedQuery "other.") ⟨"other.", "hmac-md5.", some [1], 0⟩ .badKey :=
  ⟨rfl, rfl, rfl⟩

/-- If the forwarder gets no reply, a query with an unknown key comes back with the error. -/
theorem example_bad_key_refused :
    Refused ⟨"other.", "hmac-md5.", some [1], 0⟩ .badKey
      (handleQuery selectorConf ⟨forwarderPass none, forwarderPass none⟩ (signedQuery "other.")) :=
  (bad_signature_refused_iff selectorConf ⟨forwarderPass none, forwarderPass none⟩
    (signedQuery "other.") (signedQuery "other.") _ _ rfl rfl rejects_signedQuery).mpr
    ⟨rfl, .inr rfl⟩

def addressReply : Packet :=
  ⟨⟨⟨7, false, false, .noError, 1, 0, 0⟩, ⟨["www", "example"], .a, .internet⟩,
    [⟨["www", "example"], .a, .internet, 300, [.a [1, 1, 1, 1]]⟩], [], []⟩, none⟩

/-- If the forwarder gets a reply, a query with an unknown key is answered. -/
theorem example_bad_key_answered :
    keyedMgr.Rejects (signedQuery "other.") ⟨"other.", "hmac-md5.", some [1], 0⟩ .badKey ∧
    ∃ c r, handleQuery selectorConf ⟨forwarderPass (some addressReply), forwarderPass none⟩
        (signedQuery "other.") = .ok c ∧ c.response = some r ∧
      r.message.answer = addressReply.message.answer ∧ r.tsig = none :=
  ⟨rejects_signedQuery, _, _, rfl, rfl, rfl, rfl⟩

end Vanguard.Query
