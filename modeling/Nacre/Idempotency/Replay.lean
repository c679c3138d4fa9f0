/-
One handler to a key, and a response only to the request it answers.

# The reservation

While a handler runs, or its answer has yet to be stored, the key holds
its reservation: the flight and the entry are written together, and the
flight is gone before the reservation runs out (`Timely`, which is what
the callers assume of every handler). So a `SET NX` that goes through
finds no other handler of its key and no stored response, and `store`
overwrites nobody's but its own (`Reserved`).

# The replay

The entry is found by the caller and the key's digest, and compared by
the digest of the method, the path and the parsed body. Two requests that
agree in these may differ in everything else: the query, an archive, the
file of a form, white space, the connection the token was issued to
(`Alike`).
-/
import Nacre.Idempotency.System
import Nacre.Lib.Solo
import Nacre.Lib.Table

namespace Nacre.Idempotency

open Transition
open Nacre.Authz (Caller tag_plain tag_inj)
open Nacre.Store (Time)

variable {rd : Reader} {s s' : World} {a : Action}

-- ============================================================ what it means

/-- One is sent the other's response as its own. -/
def Same (r q : Request) : Prop :=
  r.caller = q.caller ∧ r.delegation = q.delegation ∧ r.method = q.method
    ∧ r.instance' = q.instance' ∧ r.search = q.search ∧ r.content = q.content

structure Idempotent (s : World) : Prop where
  once : ∀ caller key, s.flights.countP (·.runs caller key) ≤ 1
  never : s.repeated = []
  replays : ∀ e ∈ s.replays, Same e.1 e.2

/-- Whose reservation the flight holds, since when. -/
def Flight.held : Flight → Option (Request × Time)
  | .handling r since => some (r, since)
  | .storing r since _ => some (r, since)
  | _ => none

/-- A handler answers, and the answer is stored, while its reservation
stands. -/
def Timely (s : World) : Action → Prop
  | .tick => ∀ g ∈ s.flights, ∀ e ∈ g.held, s.now + 1 < e.2 + RESERVATION_SECONDS
  | _ => True

/-- Two requests of a caller under one key that agree in method, path and
parsed body are the same request, and no two texts share a digest. -/
def Alike (rd : Reader) (r q : Request) : Prop :=
  (r.caller = q.caller → r.key = q.key → r.method = q.method → r.instance' = q.instance' →
    rd.body r.content = rd.body q.content →
    r.delegation = q.delegation ∧ r.search = q.search ∧ r.content = q.content)
  ∧ (digest r.key.toUTF8.data.toList = digest q.key.toUTF8.data.toList → r.key = q.key)
  ∧ ∀ b ∈ rd.body r.content, ∀ c ∈ rd.body q.content,
      r.fingerprint b = q.fingerprint c → r.text b = q.text c

/-- The cache is for every request, and requests differ in what it looks
at. -/
def Kept (rd : Reader) (s : World) : Action → Prop
  | .arrive r => r.cacheable = true ∧ ∀ q ∈ s.seen, Alike rd r q
  | a => Timely s a

-- ========================================================== what is hashed

/-- A text says the method, the path and the body. -/
theorem text_inj {r q : Request} {b c : Json} (h : r.text b = q.text c) :
    r.method = q.method ∧ r.instance' = q.instance' ∧ b = c := by
  obtain ⟨hmethod, hrest⟩ := List.cons.inj (Json.object.inj (Json.stringify_inj h))
  obtain ⟨hpath, hrest⟩ := List.cons.inj hrest
  have hbody := (List.cons.inj hrest).1
  exact ⟨Js.codeUnits_inj (Json.string.inj (Prod.mk.inj hmethod).2),
    Js.codeUnits_inj (Json.string.inj (Prod.mk.inj hpath).2), (Prod.mk.inj hbody).2⟩

theorem toList_cacheKey (caller : Caller) (key : String) :
    (cacheKey caller key).toList = "nacre:idem:".toList ++ (caller.orgId.toList ++ ':' ::
      (caller.principal.type.tag.toList ++ ':' :: (caller.principal.id.toList ++ ':' ::
        (digest key.toUTF8.data.toList).toList))) := by
  have hcolon : ":".toList = [':'] := rfl
  unfold cacheKey
  rw [String.toList_append, String.toList_append, String.toList_append, String.toList_append,
    String.toList_append, String.toList_append, String.toList_append, hcolon]
  simp only [List.append_assoc, List.cons_append, List.nil_append]

/-- A key in Redis says whose it is, and the digest. -/
theorem cacheKey_inj {caller caller' : Caller} {key key' : String}
    (h : cacheKey caller key = cacheKey caller' key') :
    caller = caller' ∧ digest key.toUTF8.data.toList = digest key'.toUTF8.data.toList := by
  have hlist := congrArg String.toList h
  rw [toList_cacheKey, toList_cacheKey] at hlist
  have hrest := List.append_cancel_left hlist
  obtain ⟨horg, hrest⟩ := Js.joined_inj caller.plain.1 caller'.plain.1 hrest
  obtain ⟨htype, hrest⟩ := Js.joined_inj (tag_plain _) (tag_plain _) hrest
  obtain ⟨hid, hdigest⟩ := Js.joined_inj caller.plain.2 caller'.plain.2 hrest
  refine ⟨?_, String.toList_inj.1 hdigest⟩
  obtain ⟨orgId, principal, plain⟩ := caller
  obtain ⟨orgId', principal', plain'⟩ := caller'
  obtain ⟨type, id⟩ := principal
  obtain ⟨type', id'⟩ := principal'
  cases String.toList_inj.1 horg
  cases tag_inj (String.toList_inj.1 htype)
  cases String.toList_inj.1 hid
  rfl

/-- Requests that are alike and that the cache takes for one are one. -/
theorem Alike.same {r q : Request} {b c : Json} (h : Alike rd r q)
    (hb : rd.body r.content = some b) (hc : rd.body q.content = some c)
    (hkey : r.cacheKey = q.cacheKey) (hfingerprint : r.fingerprint b = q.fingerprint c) :
    Same r q := by
  obtain ⟨hwhole, hdigest, htext⟩ := h
  obtain ⟨hcaller, hkeys⟩ := cacheKey_inj hkey
  obtain ⟨hmethod, hpath, rfl⟩ := text_inj (htext b hb c hc hfingerprint)
  obtain ⟨hdelegation, hsearch, hcontent⟩ :=
    hwhole hcaller (hdigest hkeys) hmethod hpath (hb.trans hc.symm)
  exact ⟨hcaller, hdelegation, hmethod, hpath, hsearch, hcontent⟩

-- ========================================================== the reservation

/-- The flight holds the key: its handler runs, or its answer is to be
stored. -/
def Flight.holds (k : String) : Flight → Bool
  | .handling r _ => r.cacheKey = k
  | .storing r _ _ => r.cacheKey = k
  | _ => false

structure Reserved (rd : Reader) (s : World) : Prop where
  held : ∀ g ∈ s.flights, ∀ r since, g.held = some (r, since) →
    s.now < since + RESERVATION_SECONDS
      ∧ ∃ body, rd.body r.content = some body
          ∧ s.cache r.cacheKey = some (reservation r body since)
  solo : ∀ k, s.flights.countP (·.holds k) ≤ 1
  passing : ∀ r, .passing r ∉ s.flights
  looked : ∀ r, .looked r ∈ s.flights → r ∈ s.seen
  entries : ∀ k e, s.cache k = some e → e.by'.cacheKey = k ∧ e.by' ∈ s.seen
    ∧ ∃ body, rd.body e.by'.content = some body ∧ e.fingerprint = e.by'.fingerprint body
  stored : ∀ e ∈ s.stored, s.now < e.2 → ∃ entry, s.cache e.1.cacheKey = some entry
    ∧ entry.response ≠ none ∧ entry.expiresAt = e.2
  never : s.repeated = []
  replays : ∀ e ∈ s.replays, Same e.1 e.2

theorem reserved_init (hs : init s) : Reserved rd s := by
  obtain ⟨now, rfl⟩ := hs
  refine ⟨?_, fun k => Nat.zero_le 1, ?_, ?_, ?_, ?_, rfl, ?_⟩
  · intro g hg
    cases hg
  · intro r hr
    cases hr
  · intro r hr
    cases hr
  · intro k e he
    cases he
  · intro e he
    cases he
  · intro e he
    cases he

theorem holds_of_held {g : Flight} {r : Request} {since : Time} (h : g.held = some (r, since)) :
    g.holds r.cacheKey = true := by
  cases g with
  | handling q t =>
      cases h
      exact decide_eq_true rfl
  | storing q t res =>
      cases h
      exact decide_eq_true rfl
  | looked q => cases h
  | passing q => cases h

theorem held_of_holds {g : Flight} {k : String} (h : g.holds k = true) :
    ∃ r since, g.held = some (r, since) ∧ r.cacheKey = k := by
  cases g with
  | handling q t => exact ⟨q, t, rfl, of_decide_eq_true h⟩
  | storing q t res => exact ⟨q, t, rfl, of_decide_eq_true h⟩
  | looked q => cases h
  | passing q => cases h

/-- Where a command finds nothing, nobody holds the key. -/
theorem Reserved.free (h : Reserved rd s) {k : String} (hfree : s.get k = none) :
    ∀ g ∈ s.flights, g.holds k = false := by
  intro g hg
  rw [Bool.eq_false_iff]
  intro hholds
  obtain ⟨r, since, hheld, rfl⟩ := held_of_holds hholds
  obtain ⟨hlive, body, -, hentry⟩ := h.held g hg r since hheld
  unfold World.get at hfree
  rw [hentry, Option.filter_eq_none_iff] at hfree
  exact hfree _ rfl (decide_eq_true hlive)

/-- And nothing is stored under it. -/
theorem Reserved.not_answered (h : Reserved rd s) {r : Request}
    (hfree : s.get r.cacheKey = none) : s.answered r = false := by
  rw [Bool.eq_false_iff]
  intro hanswered
  obtain ⟨e, he, hsel⟩ := List.any_eq_true.1 hanswered
  simp only [Bool.and_eq_true, decide_eq_true_eq] at hsel
  obtain ⟨⟨hcaller, hkey⟩, hlive⟩ := hsel
  obtain ⟨entry, hentry, -, hexpires⟩ := h.stored e he hlive
  have hsame : e.1.cacheKey = r.cacheKey := by
    unfold Request.cacheKey
    rw [hcaller, hkey]
  unfold World.get at hfree
  rw [hsame] at hentry
  rw [hentry, Option.filter_eq_none_iff] at hfree
  exact hfree _ rfl (decide_eq_true (hexpires ▸ hlive))

-- ============================================================== the steps

theorem Reserved.tick (h : Reserved rd s) (hok : Timely s .tick) :
    Reserved rd { s with now := s.now + 1 } := by
  refine ⟨fun g hg r since hheld => ?_, h.solo, h.passing, h.looked, h.entries,
    fun e he hlive => h.stored e he (Nat.lt_of_succ_lt hlive), h.never, h.replays⟩
  exact ⟨hok g hg (r, since) hheld, (h.held g hg r since hheld).2⟩

/-- A request arrives, and nothing is held that was not. -/
theorem Reserved.arrive (h : Reserved rd s) (r : Request) (new : List Flight)
    (hnew : ∀ g ∈ new, g = .looked r) :
    Reserved rd { s with seen := r :: s.seen, flights := new ++ s.flights } := by
  have hold : ∀ g ∈ new ++ s.flights, g ≠ .looked r → g ∈ s.flights := by
    intro g hg hne
    rcases List.mem_append.1 hg with hin | hin
    · exact absurd (hnew g hin) hne
    · exact hin
  refine ⟨fun g hg q since hheld => ?_, fun k => ?_, fun q hq => ?_, fun q hq => ?_,
    fun k e he => ?_, h.stored, h.never, h.replays⟩
  · exact h.held g (hold g hg (by rintro rfl; cases hheld)) q since hheld
  · have hnone : new.countP (·.holds k) = 0 := by
      rw [List.countP_eq_zero]
      intro g hg
      rw [hnew g hg]
      exact Bool.false_ne_true
    show (new ++ s.flights).countP _ ≤ 1
    rw [List.countP_append, hnone, Nat.zero_add]
    exact h.solo k
  · exact h.passing q (hold _ hq nofun)
  · rcases List.mem_append.1 hq with hin | hin
    · cases hnew _ hin
      exact List.mem_cons_self
    · exact List.mem_cons_of_mem _ (h.looked q hin)
  · obtain ⟨hkey, hseen, hbody⟩ := h.entries k e he
    exact ⟨hkey, List.mem_cons_of_mem _ hseen, hbody⟩

/-- Some flights end. -/
theorem Reserved.fewer (h : Reserved rd s) {g : Flight} : Reserved rd (s.replace g []) := by
  have hsub : ∀ {g' : Flight}, g' ∈ s.flights.erase g → g' ∈ s.flights :=
    List.mem_of_mem_erase
  exact ⟨fun g' hg' => h.held g' (hsub hg'),
    fun k => Solo.solo_sublist (h.solo k) List.erase_sublist, fun q hq => h.passing q (hsub hq),
    fun q hq => h.looked q (hsub hq), h.entries, h.stored, h.never, h.replays⟩

theorem Reserved.answer (h : Reserved rd s) {r : Request} {since : Time} (res : Response)
    (hflight : .handling r since ∈ s.flights) :
    Reserved rd (s.replace (.handling r since) [.storing r since res]) := by
  have hcase : ∀ g ∈ (s.replace (.handling r since) [.storing r since res]).flights,
      g = .storing r since res ∨ g ∈ s.flights := by
    intro g hg
    rcases List.mem_cons.1 hg with rfl | hin
    · exact .inl rfl
    · exact .inr (List.mem_of_mem_erase hin)
  refine ⟨fun g hg q t hheld => ?_, fun k => ?_, fun q hq => ?_, fun q hq => ?_, h.entries,
    h.stored, h.never, h.replays⟩
  · rcases hcase g hg with rfl | hin
    · exact h.held _ hflight q t hheld
    · exact h.held g hin q t hheld
  · exact Solo.solo_swap (h.solo k) hflight fun hholds => hholds
  · rcases hcase _ hq with heq | hin
    · cases heq
    · exact h.passing q hin
  · rcases hcase _ hq with heq | hin
    · cases heq
    · exact h.looked q hin

/-- The key is free: it is reserved, and the handler begins. -/
theorem Reserved.reserve (h : Reserved rd s) {r : Request} {body : Json}
    (hbody : rd.body r.content = some body) (hflight : .looked r ∈ s.flights)
    (hfree : s.get r.cacheKey = none) :
    Reserved rd { (s.replace (.looked r) []).begin r (.handling r s.now) with
      cache := Function.update s.cache r.cacheKey (some (reservation r body s.now)) } := by
  have hnobody := h.free hfree
  have hcase : ∀ g ∈ Flight.handling r s.now :: s.flights.erase (.looked r),
      g = .handling r s.now ∨ g ∈ s.flights := by
    intro g hg
    rcases List.mem_cons.1 hg with rfl | hin
    · exact .inl rfl
    · exact .inr (List.mem_of_mem_erase hin)
  refine ⟨fun g hg q since hheld => ?_, fun k => ?_, fun q hq => ?_, fun q hq => ?_,
    fun k e he => ?_, fun e he hlive => ?_, ?_, h.replays⟩
  · rcases hcase g hg with rfl | hin
    · cases hheld
      refine ⟨Nat.lt_add_of_pos_right (by decide), body, hbody, ?_⟩
      exact Function.update_self ..
    · obtain ⟨hlive, body', hbody', hentry⟩ := h.held g hin q since hheld
      refine ⟨hlive, body', hbody', ?_⟩
      have hne : q.cacheKey ≠ r.cacheKey := by
        intro heq
        have hheldKey := holds_of_held hheld
        rw [heq, hnobody g hin] at hheldKey
        cases hheldKey
      exact (Function.update_of_ne hne ..).trans hentry
  · show (Flight.handling r s.now :: s.flights.erase (.looked r)).countP (·.holds k) ≤ 1
    by_cases hk : r.cacheKey = k
    · subst hk
      exact Solo.solo_cons fun g hg => hnobody g (List.mem_of_mem_erase hg)
    · have hskip : ¬ (Flight.handling r s.now).holds k = true :=
        fun hholds => hk (of_decide_eq_true hholds)
      rw [List.countP_cons_of_neg hskip]
      exact Solo.solo_sublist (h.solo k) List.erase_sublist
  · rcases hcase _ hq with heq | hin
    · cases heq
    · exact h.passing q hin
  · rcases hcase _ hq with heq | hin
    · cases heq
    · exact h.looked q hin
  · rcases Table.update_cases he with ⟨rfl, rfl⟩ | ⟨-, hold⟩
    · exact ⟨rfl, h.looked r hflight, body, hbody, rfl⟩
    · exact h.entries k e hold
  · obtain ⟨entry, hentry, hresponse, hexpires⟩ := h.stored e he hlive
    have hne : e.1.cacheKey ≠ r.cacheKey := by
      intro heq
      unfold World.get at hfree
      rw [heq] at hentry
      rw [hentry, Option.filter_eq_none_iff] at hfree
      exact hfree _ rfl (decide_eq_true (hexpires ▸ hlive))
    exact ⟨entry, (Function.update_of_ne hne ..).trans hentry, hresponse, hexpires⟩
  · have hquiet : (s.replace (.looked r) []).answered r = false := h.not_answered hfree
    show (if (s.replace (.looked r) []).answered r then r :: s.repeated else s.repeated) = []
    rw [hquiet]
    exact h.never

/-- `store` writes its own key: nobody else holds it, and no response is
stored under it. -/
theorem Reserved.land (h : Reserved rd s) {r : Request} {since : Time} {res : Response}
    (hflight : .storing r since res ∈ s.flights) (write : Option Entry)
    (added : List (Request × Time))
    (hwrite : ∀ e ∈ write, e.by' = r ∧ ∃ body, rd.body r.content = some body
      ∧ e.fingerprint = r.fingerprint body)
    (hadded : ∀ e ∈ added, e.1 = r ∧ ∃ entry ∈ write, entry.response ≠ none
      ∧ entry.expiresAt = e.2) :
    Reserved rd { s.replace (.storing r since res) [] with
      cache := Function.update s.cache r.cacheKey write
      stored := added ++ s.stored } := by
  obtain ⟨-, body, hbody, hentry⟩ := h.held _ hflight r since rfl
  have hmine : (Flight.storing r since res).holds r.cacheKey = true := decide_eq_true rfl
  have hsub : ∀ {g : Flight}, g ∈ s.flights.erase (.storing r since res) → g ∈ s.flights :=
    List.mem_of_mem_erase
  refine ⟨fun g hg q t hheld => ?_, fun k => Solo.solo_sublist (h.solo k) List.erase_sublist,
    fun q hq => h.passing q (hsub hq), fun q hq => h.looked q (hsub hq), fun k e he => ?_,
    fun e he hlive => ?_, h.never, h.replays⟩
  · obtain ⟨hlive, body', hbody', hentry'⟩ := h.held g (hsub hg) q t hheld
    refine ⟨hlive, body', hbody', ?_⟩
    have hne : q.cacheKey ≠ r.cacheKey := by
      intro heq
      have hother := Solo.solo_erase (h.solo r.cacheKey) hflight hmine hg
      rw [← heq, holds_of_held hheld] at hother
      cases hother
    exact (Function.update_of_ne hne ..).trans hentry'
  · change Function.update s.cache r.cacheKey write k = some e at he
    by_cases hk : k = r.cacheKey
    · subst hk
      rw [Function.update_self] at he
      obtain ⟨hby, body', hbody', hfingerprint⟩ := hwrite e he
      have hseen := (h.entries _ _ hentry).2.1
      rw [hby]
      exact ⟨rfl, hseen, body', hbody', hfingerprint⟩
    · rw [Function.update_of_ne hk] at he
      exact h.entries k e he
  · rcases List.mem_append.1 he with hnew | hold
    · obtain ⟨hr, entry, hin, hresponse, hexpires⟩ := hadded e hnew
      refine ⟨entry, ?_, hresponse, hexpires⟩
      rw [hr]
      exact (Function.update_self ..).trans hin
    · obtain ⟨entry, hstored, hresponse, hexpires⟩ := h.stored e hold hlive
      have hne : e.1.cacheKey ≠ r.cacheKey := by
        intro heq
        rw [heq, hentry] at hstored
        cases hstored
        exact hresponse rfl
      exact ⟨entry, (Function.update_of_ne hne ..).trans hstored, hresponse, hexpires⟩

theorem Reserved.step (h : Reserved rd s) (hok : Kept rd s a) (hs : Stepped rd s a s') :
    Reserved rd s' := by
  cases hs with
  | tick => exact h.tick hok
  | looked r body hbody => exact h.arrive r [.looked r] fun g hg => List.mem_singleton.1 hg
  | conflict r => exact h.arrive r [] fun _ h => nomatch h
  | replay r body e hbody hentry hfingerprint hresponse =>
      have harrived : Reserved rd { s with seen := r :: s.seen, flights := s.flights } :=
        h.arrive r [] fun _ h => nomatch h
      obtain ⟨hkey, hseen, body', hbody', hproduced⟩ :=
        h.entries _ e (Option.filter_eq_some_iff.1 hentry).1
      have hsame : Same r e.by' :=
        (hok.2 _ hseen).same hbody hbody' hkey.symm (hfingerprint.symm.trans hproduced)
      refine ⟨harrived.held, harrived.solo, harrived.passing, harrived.looked, harrived.entries,
        harrived.stored, harrived.never, fun pair hpair => ?_⟩
      rcases List.mem_cons.1 hpair with rfl | hold
      · exact hsame
      · exact h.replays pair hold
  | pass r hpass =>
      have hcacheable := hok.1
      rw [hpass] at hcacheable
      cases hcacheable
  | late r => exact h.fewer
  | reserve r body hbody hflight hfree => exact h.reserve hbody hflight hfree
  | answer r since res hflight => exact h.answer res hflight
  | store r since res body hbody hflight =>
      refine h.land hflight (some (outcome r body res s.now)) [(r, s.now + TTL_SECONDS)]
        (fun e he => ?_) (fun e he => ?_)
      · cases he
        exact ⟨rfl, body, hbody, rfl⟩
      · cases List.mem_singleton.1 he
        exact ⟨rfl, _, rfl, nofun, rfl⟩
  | forget r since res hflight =>
      exact h.land hflight none [] (fun _ h => nomatch h) fun _ h => nomatch h
  | finish r => exact h.fewer
  | drop g => exact h.fewer

theorem reserved_reachable (hrun : Reachable (step rd) (Kept rd) init s) : Reserved rd s :=
  hrun.invariant (fun _ => reserved_init) fun _ _ _ h hok hs => h.step hok (step_inv hs)

theorem Reserved.idempotent (h : Reserved rd s) : Idempotent s := by
  refine ⟨fun caller key => ?_, h.never, h.replays⟩
  refine Nat.le_trans (List.countP_mono_left fun g hg hruns => ?_) (h.solo (cacheKey caller key))
  cases g with
  | handling r since =>
      have hboth := Bool.and_eq_true_iff.1 hruns
      refine decide_eq_true ?_
      show cacheKey r.caller r.key = cacheKey caller key
      rw [of_decide_eq_true hboth.1, of_decide_eq_true hboth.2]
  | passing r => exact absurd hg (h.passing r)
  | looked r => cases hruns
  | storing r since res => cases hruns

/-- One handler to a caller's key at a time, none while a response is
stored, and a response is replayed to the request it answers only, in
every run whose requests differ in what the cache looks at. -/
theorem requests_idempotent (hrun : Reachable (step rd) (Kept rd) init s) : Idempotent s :=
  (reserved_reachable hrun).idempotent

/-- A reader of no body at all. -/
def bodiless : Reader := ⟨fun _ => none, fun _ _ => none⟩

theorem no_colon : ':' ∉ "o".toList ∧ ':' ∉ "ann".toList := by decide

def ann : Caller := ⟨"o", ⟨.user, "ann"⟩, no_colon⟩

/-- A skill of hers is written as an archive, or cleared. -/
def skillRequest (method search : String) (content : Content) : Request where
  caller := ann
  delegation := none
  key := "k"
  method := method
  instance' := "/v1/skill"
  search := search
  content := content

def clearing : Request := skillRequest "DELETE" "?based_on=1" (.json [])

instance (s : World) (a : Action) : Decidable (Timely s a) := by
  cases a with
  | tick => exact inferInstanceAs (Decidable (∀ g ∈ s.flights, ∀ e ∈ g.held, _ < _))
  | _ => exact inferInstanceAs (Decidable True)

instance (rd : Reader) (r q : Request) : Decidable (Alike rd r q) :=
  inferInstanceAs (Decidable (_ ∧ _ ∧ _))

instance (rd : Reader) (s : World) (a : Action) : Decidable (Kept rd s a) := by
  cases a with
  | arrive r => exact inferInstanceAs (Decidable (_ ∧ _))
  | tick => exact inferInstanceAs (Decidable (Timely s .tick))
  | _ => exact inferInstanceAs (Decidable True)

/-- A skill is cleared, and the request sent again. -/
def clearedActs : List Action :=
  [.arrive clearing, .reserve clearing, .answer clearing 0 ⟨204, .null⟩,
    .land clearing 0 ⟨204, .null⟩, .tick, .arrive clearing]

def clearedWorld : World :=
  (runWithin (step bodiless) (Kept bodiless) (World.empty 0) clearedActs).get
    (by decide +kernel)

theorem requests_idempotent_cleared :
    clearedWorld.replays = [(clearing, clearing)] ∧ Idempotent clearedWorld :=
  ⟨by decide +kernel, requests_idempotent (reachable_get ⟨0, rfl⟩ _)⟩

-- ============================================================ what remains

/-- An archive. -/
def archive : Request := skillRequest "PUT" "?based_on=1" (.zip [1])

/-- Another, on top of another version, from a connection of hers. -/
def otherArchive : Request :=
  { skillRequest "PUT" "?based_on=2" (.zip [2]) with delegation := some "c" }

/-- The first is stored, then the second arrives under its key. -/
def archivesActs : List Action :=
  [.arrive archive, .reserve archive, .answer archive 0 ⟨204, .null⟩,
    .land archive 0 ⟨204, .null⟩, .arrive otherArchive]

def archivesWorld : World :=
  (runWithin (step bodiless) Timely (World.empty 0) archivesActs).get (by decide +kernel)

/-- A response is replayed to a request with another body and another
query, from a connection of the person it was produced for. -/
theorem replayed_to_another :
    ∃ s r q, Reachable (step bodiless) Timely init s ∧ (r, q) ∈ s.replays
      ∧ r.content ≠ q.content ∧ r.search ≠ q.search ∧ r.delegation ≠ q.delegation :=
  ⟨archivesWorld, otherArchive, archive, reachable_get ⟨0, rfl⟩ _, by decide +kernel, by decide,
    by decide, by decide⟩

end Nacre.Idempotency
