import Directives.Proofs.Renewal

/-! How long a client waits before it renews its token. It waits once for every renewal, and for less than
the lease; but not at all where the lease is no longer than the time by which it is early. -/
namespace Directives.Vault
namespace Session
variable {σ : Type} {link : Link σ} {host : String} {trail : List Deed} {session after : Session}

/-- What is done while nothing is waited for, renewed or granted. -/
structure Idle (host : String) (d : Deed) : Prop where
  pause : ∀ seconds, d ≠ .call (.pause seconds)
  renewal : ∀ r, d = .call (.request r) → renews host r = false
  grant : d.grant? = none

/-- The client has waited for the last grant to come near its end, and has done nothing about it since. -/
structure Waited (host : String) (trail earlier : List Deed) (seconds : Nat) (middle : List Deed)
    (grant : Grant) : Prop where
  split : trail = earlier ++ .call (.pause seconds) :: middle
  idle : ∀ d ∈ middle, Idle host d
  last : (Trail.grants trail).getLast? = some grant
  leased : 0 < grant.lease
  pause : seconds = Renewal.pause grant.lease

theorem Waited.snoc {earlier middle : List Deed} {seconds : Nat} {grant : Grant} {d : Deed}
    (waited : Waited host trail earlier seconds middle grant) (idle : Idle host d) :
    Waited host (trail ++ [d]) earlier seconds (middle ++ [d]) grant where
  split := by rw [waited.split, List.append_assoc, List.cons_append]
  idle := List.forall_mem_append.mpr ⟨waited.idle, List.forall_mem_singleton.mpr idle⟩
  last := by
    have none : Trail.grants [d] = [] := List.filterMap_eq_nil_iff.mpr fun e member =>
      List.mem_singleton.mp member ▸ idle.grant
    rw [Trail.grants_append, none, List.append_nil]
    exact waited.last
  leased := waited.leased
  pause := waited.pause

/-- Between two renewals there is a pause. -/
theorem Waited.between {earlier middle before between : List Deed} {seconds : Nat} {grant : Grant}
    {r : Request} (waited : Waited host trail earlier seconds middle grant)
    (split : trail = before ++ .call (.request r) :: between) (renewal : renews host r = true) :
    ∃ seconds, .call (.pause seconds) ∈ between := by
  -- The last renewal stands before the pause or in the idle time after it, where none can be.
  rcases List.append_eq_append_iff.mp (waited.split.symm.trans split) with
    ⟨more, _, rest⟩ | ⟨more, _, rest⟩
  · cases more with
    | nil => cases rest
    | cons d more =>
      obtain ⟨rfl, same⟩ := List.cons.inj rest
      have idle := waited.idle (.call (.request r)) (by rw [same]; simp)
      rw [idle.renewal r rfl] at renewal
      cases renewal
  · cases more with
    | nil => cases rest
    | cons d more =>
      obtain ⟨_, same⟩ := List.cons.inj rest
      exact ⟨seconds, by rw [same]; simp⟩

/-- If the deed is a renewal, the client has waited for it. -/
def Timely (host : String) (before : List Deed) (d : Deed) : Prop :=
  ∀ r, d = .call (.request r) → renews host r = true →
    ∃ earlier seconds middle grant, Waited host before earlier seconds middle grant

theorem timely_of_idle {d : Deed} (idle : Idle host d) : Timely host trail d := by
  intro r same renewal
  rw [idle.renewal r same] at renewal
  cases renewal

theorem timely_pause (seconds : Nat) : Timely host trail (.call (.pause seconds)) := by
  intro r same
  cases same

theorem timely_settled (reply : Reply) (outcome : Except Problem Grant) :
    Timely host trail (.settled reply outcome) := by
  intro r same
  cases same

/-- What the trail tells about the wait that goes on, or about the one that is over. -/
def Awaits (host : String) (trail : List Deed) : Renewal → Prop
  | .waiting lease =>
    ∃ grant, (Trail.grants trail).getLast? = some grant ∧ grant.lease = lease ∧ 0 < lease
  | .drawn _ => ∃ earlier seconds middle grant, Waited host trail earlier seconds middle grant
  | _ => True

/-- The client has kept its pace so far. -/
structure KeepsPace (host : String) (trail : List Deed) (session : Session) : Prop where
  paced : ∀ before d later, trail = before ++ d :: later → Timely host before d
  reads : ∀ read ∈ session.pending, renews host read.1 = false
  renewal : Awaits host trail session.renewal

theorem getLast?_grants_snoc {d : Deed} {grant : Grant} (none : d.grant? = none)
    (last : (Trail.grants trail).getLast? = some grant) :
    (Trail.grants (trail ++ [d])).getLast? = some grant := by
  have quiet : Trail.grants [d] = [] := by
    rw [Trail.grants, List.filterMap_cons_none none]
    rfl
  rwa [Trail.grants_append, quiet, List.append_nil]

theorem awaits_snoc {d : Deed} {phase : Renewal} (idle : Idle host d) (awaits : Awaits host trail phase) :
    Awaits host (trail ++ [d]) phase := by
  cases phase with
  | waiting lease =>
    obtain ⟨grant, last, same, leased⟩ := awaits
    exact ⟨grant, getLast?_grants_snoc idle.grant last, same, leased⟩
  | drawn r =>
    obtain ⟨earlier, seconds, middle, grant, waited⟩ := awaits
    exact ⟨earlier, seconds, _, grant, waited.snoc idle⟩
  | answered r reply => trivial
  | stopped => trivial

theorem idle_drawn (r : Request) : Idle host (.drawn r) where
  pause _ same := nomatch same
  renewal _ same := nomatch same
  grant := rfl

theorem idle_request {r : Request} (read : renews host r = false) : Idle host (.call (.request r)) where
  pause _ same := nomatch same
  renewal _ same := by
    cases same
    exact read
  grant := rfl

theorem awaits_ofLease (trail : List Deed) (reply : Reply) (grant : Grant) :
    Awaits host (trail ++ [.settled reply (.ok grant)]) (.ofLease grant.lease) := by
  by_cases none : grant.lease = 0
  · rw [Renewal.ofLease, if_pos none]
    trivial
  · rw [Renewal.ofLease, if_neg none]
    refine ⟨grant, ?_, rfl, Nat.pos_of_ne_zero none⟩
    rw [Trail.grants_append]
    exact List.getLast?_concat

theorem keepsPace_moves {deeds : List Deed} (keeps : KeepsPace host trail session)
    (moves : Moves link session deeds after) : KeepsPace host (trail ++ deeds) after := by
  cases moves with
  | idle => rwa [List.append_nil]
  | prepare path mount limit =>
    have idle : Idle host (.drawn (session.client.readRequest path mount)) := idle_drawn _
    refine ⟨Trail.each_snoc keeps.paced (timely_of_idle idle), ?_, awaits_snoc idle keeps.renewal⟩
    refine List.forall_mem_append.mpr ⟨keeps.reads, List.forall_mem_singleton.mpr ?_⟩
    simp [renews, Client.readRequest, Client.get]
  | @send position request limit found =>
    have idle : Idle host (.call (.request request)) :=
      idle_request (keeps.reads _ (List.mem_of_getElem? found))
    refine ⟨Trail.each_snoc keeps.paced (timely_of_idle idle), ?_, awaits_snoc idle keeps.renewal⟩
    exact fun read member => keeps.reads read (List.mem_of_mem_eraseIdx member)
  | @wake lease waiting =>
    have awaits := keeps.renewal
    rw [waiting] at awaits
    obtain ⟨grant, last, rfl, leased⟩ := awaits
    have paused := Trail.each_snoc keeps.paced (timely_pause (Renewal.pause grant.lease))
    have waited : Waited host (trail ++ [.call (.pause (Renewal.pause grant.lease))]) trail _ [] grant :=
      ⟨rfl, List.forall_mem_nil _, getLast?_grants_snoc rfl last, leased, rfl⟩
    have idle : Idle host (.drawn (session.client.post renewalPath [])) := idle_drawn _
    -- The renewal is only drawn up here, so what was waited for is kept until it is sent.
    rw [List.append_cons]
    exact ⟨Trail.each_snoc paused (timely_of_idle idle), keeps.reads, _, _, _, _, waited.snoc idle⟩
  | @renew request s drawn =>
    have awaits := keeps.renewal
    rw [drawn] at awaits
    exact ⟨Trail.each_snoc keeps.paced fun _ _ _ => awaits, keeps.reads, trivial⟩
  | @settle request reply answered =>
    have paced := Trail.each_snoc keeps.paced
      (timely_settled reply (readReply Grant.decoder request.url reply))
    cases outcome : readReply Grant.decoder request.url reply with
    | error problem =>
      rw [outcome] at paced
      exact ⟨paced, keeps.reads, trivial⟩
    | ok grant =>
      rw [outcome] at paced
      exact ⟨paced, keeps.reads, awaits_ofLease _ reply grant⟩
  | release held =>
    rw [List.append_nil]
    exact ⟨keeps.paced, keeps.reads, keeps.renewal⟩

theorem keepsPace_run (link : Link σ) (keeps : KeepsPace host trail session) (events : List Event) (s : σ) :
    ∃ after s' deeds, (run link session events : Life σ Fault Session) s = ⟨.ok after, s', deeds⟩ ∧
      KeepsPace host (trail ++ deeds) after :=
  run_preserves keepsPace_moves keeps events s

theorem paced_login (role : AppRole) (reply : Reply) (outcome : Except Problem Grant) :
    ∀ before d later, loginDeeds host role reply outcome = before ++ d :: later → Timely host before d := by
  have nothing : ∀ before d later, [] = before ++ d :: later → Timely host before d :=
    fun before d later split => by simp at split
  have drawn := Trail.each_snoc nothing (timely_of_idle (idle_drawn (loginRequest host role)))
  have idle : Idle host (.call (.request (loginRequest host role))) := idle_request renews_loginRequest
  have sent := Trail.each_snoc drawn (timely_of_idle idle)
  exact Trail.each_snoc sent (timely_settled reply outcome)

theorem keepsPace_login (role : AppRole) (reply : Reply) (grant : Grant) :
    KeepsPace host (loginDeeds host role reply (.ok grant))
      (accept { client := { host }, renewal := .stopped } grant) where
  paced := paced_login role reply (.ok grant)
  reads _ member := nomatch member
  renewal := awaits_ofLease [.drawn _, .call (.request _)] reply grant

/-- A client that has logged in never renews its token without a wait. -/
theorem paced_live (link : Link σ) (context : Context σ) (host : String) (role : AppRole)
    (events : List Event) (s : σ) :
    ∀ before d later, (live link context host role events s).calls = before ++ d :: later →
      Timely host before d := by
  have whole : live link context host role events s =
      (enter link context host role >>= fun session => run link session events) s := rfl
  rcases enter_cases link context host role s with
    ⟨f, entered⟩ | ⟨limit, s', ⟨grant, _, entered⟩ | ⟨problem, _, entered⟩⟩
  · rw [whole, Traced.bind_of_error (congrArg Traced.Answer.outcome entered), entered]
    exact fun before d later split => by simp at split
  · obtain ⟨after, s'', deeds, ran, keeps⟩ :=
      keepsPace_run link (keepsPace_login role _ grant) events s'
    rw [whole, Traced.bind_of_ok (congrArg Traced.Answer.outcome entered), entered]
    dsimp only
    rw [ran]
    exact keeps.paced
  · rw [whole, Traced.bind_of_error (congrArg Traced.Answer.outcome entered), entered]
    exact paced_login role _ _

/-- The pace of renewal, whatever the server grants and in whatever order the caller's reads and the renewal
take turns. Before each renewal is sent the client waits once, after the last grant, for less time than its
lease; it does wait if the lease is longer than the time by which renewal is early, and else it renews at
once. Two renewals have a pause between them, if only of that kind. -/
theorem renewal_paced (link : Link σ) (context : Context σ) (host : String) (role : AppRole)
    (events : List Event) (s : σ) :
    let lived := live link context host role events s
    (∀ before r later, lived.calls = before ++ .call (.request r) :: later → renews host r = true →
      ∃ earlier seconds middle grant, before = earlier ++ .call (.pause seconds) :: middle ∧
        (∀ d ∈ middle, Idle host d) ∧ (Trail.grants before).getLast? = some grant ∧
        seconds = grant.lease - renewalBuffer ∧ seconds < grant.lease ∧
        (0 < seconds ↔ renewalBuffer < grant.lease)) ∧
    ∀ before r between r' later,
      lived.calls = before ++ .call (.request r) :: between ++ .call (.request r') :: later →
      renews host r = true → renews host r' = true → ∃ seconds, .call (.pause seconds) ∈ between := by
  intro lived
  have paced := paced_live link context host role events s
  refine ⟨fun before r later split renewal => ?_, fun before r between r' later split renewal renewal' => ?_⟩
  · obtain ⟨earlier, seconds, middle, grant, waited⟩ := paced before _ later split r rfl renewal
    have leased := waited.leased
    have early : seconds = grant.lease - renewalBuffer := waited.pause
    have buffer : renewalBuffer = 300 := rfl
    refine ⟨earlier, seconds, middle, grant, waited.split, waited.idle, waited.last, early, ?_, ?_⟩
    · omega
    · omega
  · obtain ⟨_, _, _, _, waited⟩ := paced _ _ later split r' rfl renewal'
    exact waited.between rfl renewal

/-- Leases no longer than the time by which renewal is early, after which two renewals follow without a
wait. -/
theorem renewal_at_once :
    let auth (token : String) : Reply := .answered 200
      ("\x7b\"auth\":\x7b\"client_token\":\"" ++ token ++ "\",\"lease_duration\":300\x7d\x7d")
    let context : Context (List Reply) :=
      { world := fun _ => {}, moment := fun _ => {}, token := { family := 0 } }
    let events : List Event := [.wake, .renew, .settle, .wake, .renew, .settle]
    let lived := live scripted context "http://vault" { roleId := "r", secretId := "s" } events
      [auth "t1", auth "t2", auth "t3"]
    (∀ outcome ∈ Trail.outcomes lived.calls, ∃ grant, outcome = .ok grant ∧ 0 < grant.lease) ∧
      (Trail.sent lived.calls).countP (renews "http://vault") = 2 ∧
      lived.calls.filterMap Deed.call? = [
        .request (loginRequest "http://vault" { roleId := "r", secretId := "s" }), .pause 0,
        .request (({ host := "http://vault", token := "t1" } : Client).post renewalPath []), .pause 0,
        .request (({ host := "http://vault", token := "t2" } : Client).post renewalPath [])] := by
  intro auth context events lived
  have outcomes : Trail.outcomes lived.calls =
      [.ok ⟨"t1", 300⟩, .ok ⟨"t2", 300⟩, .ok ⟨"t3", 300⟩] := by
    decide +kernel
  refine ⟨?_, by decide +kernel, by decide +kernel⟩
  rw [outcomes]
  simp

end Session
end Directives.Vault
