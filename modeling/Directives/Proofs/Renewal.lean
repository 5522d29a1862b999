import Mathlib.Data.List.Perm.Basic
import Directives.Proofs.Leaves
import Directives.Vault.Session

/-! The tokens that a client shows to Vault, for every server and every order in which the caller's reads
and the renewal take turns. What is done in a session is told by its trail: which requests were made out,
which were sent, and which answers to a login or a renewal took effect. -/
namespace Directives.Vault

namespace Deed

def drawn? : Deed → Option Request
  | .drawn request => some request
  | _ => none

def sent? : Deed → Option Request
  | .call (.request request) => some request
  | _ => none

def outcome? : Deed → Option (Except Problem Grant)
  | .settled _ outcome => some outcome
  | _ => none

def grant? : Deed → Option Grant
  | .settled _ (.ok grant) => some grant
  | _ => none

end Deed

namespace Trail
variable {trail more : List Deed}

def drawn (trail : List Deed) : List Request := trail.filterMap Deed.drawn?

def sent (trail : List Deed) : List Request := trail.filterMap Deed.sent?

def outcomes (trail : List Deed) : List (Except Problem Grant) := trail.filterMap Deed.outcome?

def grants (trail : List Deed) : List Grant := trail.filterMap Deed.grant?

/-- The token that was granted last. -/
def token? (trail : List Deed) : Option String := (grants trail).getLast?.map Grant.token

@[simp] theorem drawn_append : drawn (trail ++ more) = drawn trail ++ drawn more := List.filterMap_append

@[simp] theorem sent_append : sent (trail ++ more) = sent trail ++ sent more := List.filterMap_append

@[simp] theorem outcomes_append : outcomes (trail ++ more) = outcomes trail ++ outcomes more :=
  List.filterMap_append

@[simp] theorem grants_append : grants (trail ++ more) = grants trail ++ grants more :=
  List.filterMap_append

section
variable {r : Request} {reply : Reply} {outcome : Except Problem Grant} {seconds : Nat} {call : Call}

@[simp] theorem drawn_nil : drawn [] = [] := rfl

@[simp] theorem drawn_cons_drawn : drawn (.drawn r :: more) = r :: drawn more := rfl

@[simp] theorem drawn_cons_call : drawn (.call call :: more) = drawn more := rfl

@[simp] theorem drawn_cons_settled : drawn (.settled reply outcome :: more) = drawn more := rfl

@[simp] theorem sent_nil : sent [] = [] := rfl

@[simp] theorem sent_cons_drawn : sent (.drawn r :: more) = sent more := rfl

@[simp] theorem sent_cons_request : sent (.call (.request r) :: more) = r :: sent more := rfl

@[simp] theorem sent_cons_pause : sent (.call (.pause seconds) :: more) = sent more := rfl

@[simp] theorem sent_cons_settled : sent (.settled reply outcome :: more) = sent more := rfl

@[simp] theorem outcomes_nil : outcomes [] = [] := rfl

@[simp] theorem outcomes_cons_drawn : outcomes (.drawn r :: more) = outcomes more := rfl

@[simp] theorem outcomes_cons_call : outcomes (.call call :: more) = outcomes more := rfl

@[simp] theorem outcomes_cons_settled :
    outcomes (.settled reply outcome :: more) = outcome :: outcomes more := rfl

end

theorem mem_outcomes_of_mem_grants {grant : Grant} (member : grant ∈ grants trail) :
    .ok grant ∈ outcomes trail := by
  obtain ⟨d, done, granted⟩ := List.mem_filterMap.mp member
  refine List.mem_filterMap.mpr ⟨d, done, ?_⟩
  cases d with
  | settled reply outcome =>
    cases outcome with
    | ok other =>
      cases granted
      rfl
    | error problem => cases granted
  | drawn request => cases granted
  | call asked => cases granted

theorem grants_eq_nil (quiet : outcomes trail = []) : grants trail = [] := by
  refine List.eq_nil_iff_forall_not_mem.mpr fun grant member => ?_
  have granted := mem_outcomes_of_mem_grants member
  rw [quiet] at granted
  cases granted

theorem token?_append (none : grants more = []) : token? (trail ++ more) = token? trail := by
  simp [token?, none]

theorem token?_settled (trail : List Deed) (reply : Reply) (grant : Grant) :
    token? (trail ++ [.settled reply (.ok grant)]) = some grant.token := by
  simp [token?, grants, Deed.grant?]

theorem exists_grant_of_token? {token : String} (last : token? trail = some token) :
    ∃ grant ∈ grants trail, grant.token = token := by
  obtain ⟨grant, last, same⟩ := Option.map_eq_some_iff.mp last
  exact ⟨grant, List.mem_of_getLast? last, same⟩

/-- What holds of each deed in view of those before it goes on to hold after one more. -/
theorem each_snoc {P : List Deed → Deed → Prop} {d : Deed}
    (each : ∀ before e after, trail = before ++ e :: after → P before e) (last : P trail d) :
    ∀ before e after, trail ++ [d] = before ++ e :: after → P before e := by
  intro before e after split
  rcases append_eq_append_cons split with ⟨rest, earlier⟩ | ⟨rest, rfl, ends⟩
  · exact each before e rest earlier
  · cases rest with
    | nil =>
      obtain ⟨rfl, _⟩ := List.cons.inj ends
      rwa [List.append_nil]
    | cons e rest => simp at ends

end Trail

namespace Session
variable {σ ε : Type} {link : Link σ} {host : String} {trail : List Deed} {session after : Session}

def renews (host : String) (r : Request) : Bool :=
  r.method = .post && r.url = ({ host } : Client).url renewalPath

/-- One step of a session: what is done, and what comes of it. -/
inductive Moves (link : Link σ) : Session → List Deed → Session → Prop
  | idle {session : Session} : Moves link session [] session
  | prepare {session : Session} (path : String) (mount : Option String) (limit : Nat) :
    Moves link session [.drawn (session.client.readRequest path mount)]
      { session with
        pending := session.pending ++ [(session.client.readRequest path mount, limit)] }
  | send {session : Session} {position : Nat} {request : Request} {limit : Nat} :
    session.pending[position]? = some (request, limit) →
    Moves link session [.call (.request request)]
      { session with pending := session.pending.eraseIdx position }
  | wake {session : Session} {lease : Nat} :
    session.renewal = .waiting lease →
    Moves link session
      [.call (.pause (Renewal.pause lease)), .drawn (session.client.post renewalPath [])]
      { session with renewal := .drawn (session.client.post renewalPath []) }
  | renew {session : Session} {request : Request} (s : σ) :
    session.renewal = .drawn request →
    Moves link session [.call (.request request)]
      { session with
        renewal := .answered request (link.exchange request renewalLimit s).1 }
  | settle {session : Session} {request : Request} {reply : Reply} :
    session.renewal = .answered request reply →
    Moves link session [.settled reply (readReply Grant.decoder request.url reply)]
      (session.settle (readReply Grant.decoder request.url reply))
  | release {session : Session} (held : Bool) : Moves link session [] { session with held }

/-- A step never fails, and it is one of these. -/
theorem moves_of_step (link : Link σ) (session : Session) (event : Event) (s : σ) :
    ∃ after s' deeds, (step link session event : Life σ ε Session) s = ⟨.ok after, s', deeds⟩ ∧
      Moves link session deeds after := by
  cases event with
  | prepare path mount limit =>
    cases held : session.held with
    | true =>
      refine ⟨_, s, _, ?_, .prepare path mount limit⟩
      simp only [step, held, if_true]
      rfl
    | false =>
      refine ⟨_, s, _, ?_, .idle⟩
      simp only [step, held]
      rfl
  | send position =>
    cases found : session.pending[position]? with
    | none =>
      refine ⟨_, s, _, ?_, .idle⟩
      simp only [step, found]
      rfl
    | some read =>
      obtain ⟨request, limit⟩ := read
      refine ⟨_, (link.exchange request limit s).2, _, ?_, .send found⟩
      simp only [step, found]
      have attempted : (Life.lift (ask link secretDecoder request limit).attempt : Life σ ε _) s =
          ⟨.ok (readReply secretDecoder request.url (link.exchange request limit s).1),
            (link.exchange request limit s).2, [.call (.request request)]⟩ := by
        simp only [Life.lift, Traced.attempt, ask_apply]
        rfl
      rw [Traced.bind_of_ok (congrArg Traced.Answer.outcome attempted), attempted]
      rfl
  | wake =>
    cases phase : session.renewal with
    | waiting lease =>
      cases held : session.held with
      | true =>
        refine ⟨_, s, _, ?_, .wake phase⟩
        simp only [step, phase, held]
        rfl
      | false =>
        refine ⟨_, s, _, ?_, .idle⟩
        simp only [step, phase, held]
        rfl
    | drawn | answered | stopped =>
      refine ⟨_, s, _, ?_, .idle⟩
      simp only [step, phase]
      rfl
  | renew =>
    cases phase : session.renewal with
    | drawn request =>
      refine ⟨_, (link.exchange request renewalLimit s).2, _, ?_, .renew s phase⟩
      simp only [step, phase]
      rfl
    | waiting | answered | stopped =>
      refine ⟨_, s, _, ?_, .idle⟩
      simp only [step, phase]
      rfl
  | settle =>
    cases phase : session.renewal with
    | answered request reply =>
      refine ⟨_, s, _, ?_, .settle phase⟩
      simp only [step, phase]
      rfl
    | waiting | drawn | stopped =>
      refine ⟨_, s, _, ?_, .idle⟩
      simp only [step, phase]
      rfl
  | release => exact ⟨_, s, _, rfl, .release _⟩

/-- Neither the login nor a renewal has failed so far, and each has granted a lease. -/
def Healthy (trail : List Deed) : Prop :=
  ∀ outcome ∈ Trail.outcomes trail, ∃ grant, outcome = .ok grant ∧ 0 < grant.lease

/-- Every login and renewal that was sent has come to something. -/
def Settled (host : String) (trail : List Deed) : Prop :=
  (Trail.outcomes trail).length = 1 + (Trail.sent trail).countP (renews host)

theorem Healthy.not_error (healthy : Healthy trail) (problem : Problem) :
    .error problem ∉ Trail.outcomes trail := by
  intro failed
  obtain ⟨_, same, _⟩ := healthy _ failed
  cases same

/-- What lets something be done, given what was done before. -/
structure Lawful (link : Link σ) (host : String) (before : List Deed) (d : Deed) : Prop where
  drawn : ∀ r, d = .drawn r → (∀ grant ∈ Trail.grants before, grant.token ≠ "") →
    r.token = Trail.token? before
  sent : ∀ r, d = .call (.request r) →
    ∃ unsent, (Trail.sent before ++ r :: unsent).Perm (Trail.drawn before)
  renewal : ∀ r, d = .call (.request r) → renews host r = true → Healthy before ∧ Settled host before
  settled : ∀ reply outcome, d = .settled reply outcome → ∃ r limit s, r ∈ Trail.sent before ∧
    r.method = .post ∧ reply = (link.exchange r limit s).1 ∧
    outcome = readReply Grant.decoder r.url reply
  stopped : ∀ problem, .error problem ∈ Trail.outcomes before → Trail.outcomes [d] = [] ∧
    ∀ r ∈ Trail.drawn [d] ++ Trail.sent [d], renews host r = false

/-- Everything in the trail could be done when it was. -/
def Abides (link : Link σ) (host : String) (trail : List Deed) : Prop :=
  ∀ before d after, trail = before ++ d :: after → Lawful link host before d

theorem abides_nil : Abides link host [] := fun before d after split => by simp at split

theorem Abides.snoc {d : Deed} (abides : Abides link host trail) (lawful : Lawful link host trail d) :
    Abides link host (trail ++ [d]) :=
  Trail.each_snoc abides lawful

/-- After a failure there are no more outcomes, and no renewal is made out or sent. -/
theorem Abides.stopped {before later : List Deed} {reply : Reply} {problem : Problem}
    (abides : Abides link host (before ++ .settled reply (.error problem) :: later)) :
    Trail.outcomes later = [] ∧
      ∀ r ∈ Trail.drawn later ++ Trail.sent later, renews host r = false := by
  have each {d : Deed} (member : d ∈ later) : Trail.outcomes [d] = [] ∧
      ∀ r ∈ Trail.drawn [d] ++ Trail.sent [d], renews host r = false := by
    obtain ⟨earlier, rest, rfl⟩ := List.append_of_mem member
    have lawful := abides (before ++ .settled reply (.error problem) :: earlier) d rest (by simp)
    exact lawful.stopped problem (by simp)
  constructor
  · refine List.filterMap_eq_nil_iff.mpr fun d member => ?_
    have none := (each member).1
    rw [Trail.outcomes, List.filterMap_eq_nil_iff] at none
    exact none d List.mem_cons_self
  · intro r member
    rcases List.mem_append.mp member with made | sent
    · obtain ⟨d, member, is⟩ := List.mem_filterMap.mp made
      exact (each member).2 r (List.mem_append_left _ (by simp [Trail.drawn, is]))
    · obtain ⟨d, member, is⟩ := List.mem_filterMap.mp sent
      exact (each member).2 r (List.mem_append_right _ (by simp [Trail.sent, is]))

/-- Requests made out after a failure show the token from before. -/
theorem Abides.kept {before later : List Deed} {reply : Reply} {problem : Problem}
    (abides : Abides link host (before ++ .settled reply (.error problem) :: later))
    (full : ∀ grant ∈ Trail.grants before, grant.token ≠ "") :
    ∀ r ∈ Trail.drawn later, r.token = Trail.token? before := by
  intro r made
  obtain ⟨d, member, is⟩ := List.mem_filterMap.mp made
  obtain rfl : d = .drawn r := by
    cases d <;> cases is
    rfl
  obtain ⟨earlier, rest, rfl⟩ := List.append_of_mem member
  have quiet : Trail.grants (.settled reply (.error problem) :: earlier) = [] := by
    have none := abides.stopped.1
    rw [Trail.outcomes_append, List.append_eq_nil_iff] at none
    change Trail.grants earlier = []
    exact Trail.grants_eq_nil none.1
  have lawful := abides (before ++ .settled reply (.error problem) :: earlier) (.drawn r) rest (by simp)
  rw [← Trail.token?_append quiet]
  refine lawful.drawn r rfl fun grant member => ?_
  rw [Trail.grants_append, quiet, List.append_nil] at member
  exact full grant member

theorem lawful_drawn {r : Request}
    (token : (∀ grant ∈ Trail.grants trail, grant.token ≠ "") → r.token = Trail.token? trail)
    (allowed : Healthy trail ∨ renews host r = false) : Lawful link host trail (.drawn r) where
  drawn other same := by
    cases same
    exact token
  sent _ same := nomatch same
  renewal _ same := nomatch same
  settled _ _ same := nomatch same
  stopped problem failed := by
    refine ⟨rfl, fun other member => ?_⟩
    obtain rfl : other = r := by simpa using member
    rcases allowed with healthy | reads
    · exact absurd failed (healthy.not_error problem)
    · exact reads

theorem lawful_sent {r : Request} (unsent : List Request)
    (made : (Trail.sent trail ++ r :: unsent).Perm (Trail.drawn trail))
    (allowed : Healthy trail ∧ Settled host trail ∨ renews host r = false) :
    Lawful link host trail (.call (.request r)) where
  drawn _ same := nomatch same
  sent other same := by
    cases same
    exact ⟨unsent, made⟩
  renewal other same renewal := by
    cases same
    rcases allowed with due | reads
    · exact due
    · cases renewal.symm.trans reads
  settled _ _ same := nomatch same
  stopped problem failed := by
    refine ⟨rfl, fun other member => ?_⟩
    obtain rfl : other = r := by simpa using member
    rcases allowed with ⟨healthy, _⟩ | reads
    · exact absurd failed (healthy.not_error problem)
    · exact reads

theorem lawful_pause (seconds : Nat) : Lawful link host trail (.call (.pause seconds)) where
  drawn _ same := nomatch same
  sent _ same := nomatch same
  renewal _ same := nomatch same
  settled _ _ same := nomatch same
  stopped _ _ := ⟨rfl, fun _ member => nomatch member⟩

theorem lawful_settled {r : Request} (limit : Nat) (s : σ) (sent : r ∈ Trail.sent trail)
    (post : r.method = .post) (healthy : Healthy trail) :
    Lawful link host trail (.settled (link.exchange r limit s).1
      (readReply Grant.decoder r.url (link.exchange r limit s).1)) where
  drawn _ same := nomatch same
  sent _ same := nomatch same
  renewal _ same := nomatch same
  settled reply outcome same := by
    cases same
    exact ⟨r, limit, s, sent, post, rfl, rfl⟩
  stopped problem failed := absurd failed (healthy.not_error problem)

/-- How far the renewal has come, as the trail tells. -/
def Fits (link : Link σ) (host : String) (trail : List Deed) : Renewal → Prop
  | .waiting _ => Healthy trail ∧ Settled host trail
  | .drawn r => Healthy trail ∧ Settled host trail ∧ renews host r = true
  | .answered r reply => Healthy trail ∧
    (Trail.outcomes trail).length = (Trail.sent trail).countP (renews host) ∧
    r ∈ Trail.sent trail ∧ r.method = .post ∧ ∃ limit s, reply = (link.exchange r limit s).1
  | .stopped => True

/-- The requests that were made out and are still to be sent. -/
def unsent (session : Session) : List Request :=
  session.pending.map Prod.fst ++
    match session.renewal with
    | .drawn request => [request]
    | _ => []

/-- What holds between a session and the trail it has left. -/
structure Keeps (link : Link σ) (host : String) (trail : List Deed) (session : Session) : Prop where
  abides : Abides link host trail
  address : session.client.host = host
  token : Trail.token? trail = some session.client.token
  requests : (Trail.sent trail ++ session.unsent).Perm (Trail.drawn trail)
  reads : ∀ read ∈ session.pending, read.1.method = .get
  renewal : Fits link host trail session.renewal

theorem Healthy.append {more : List Deed} (healthy : Healthy trail) (quiet : Trail.outcomes more = []) :
    Healthy (trail ++ more) := by
  rwa [Healthy, Trail.outcomes_append, quiet, List.append_nil]

theorem fits_append {more : List Deed} {phase : Renewal} (quiet : Trail.outcomes more = [])
    (reads : ∀ r ∈ Trail.sent more, renews host r = false) (fits : Fits link host trail phase) :
    Fits link host (trail ++ more) phase := by
  have count : (Trail.sent (trail ++ more)).countP (renews host) =
      (Trail.sent trail).countP (renews host) := by
    have none : (Trail.sent more).countP (renews host) = 0 :=
      List.countP_eq_zero.mpr fun r member => by simp [reads r member]
    rw [Trail.sent_append, List.countP_append, none, Nat.add_zero]
  have same : Trail.outcomes (trail ++ more) = Trail.outcomes trail := by
    rw [Trail.outcomes_append, quiet, List.append_nil]
  cases phase with
  | waiting lease =>
    obtain ⟨healthy, settled⟩ := fits
    exact ⟨healthy.append quiet, by rwa [Settled, count, same]⟩
  | drawn r =>
    obtain ⟨healthy, settled, renewal⟩ := fits
    exact ⟨healthy.append quiet, by rwa [Settled, count, same], renewal⟩
  | answered r reply =>
    obtain ⟨healthy, due, member, post, answer⟩ := fits
    refine ⟨healthy.append quiet, by rwa [count, same], ?_, post, answer⟩
    rw [Trail.sent_append]
    exact List.mem_append_left _ member
  | stopped => trivial

theorem keeps_prepare (keeps : Keeps link host trail session) (path : String) (mount : Option String)
    (limit : Nat) :
    Keeps link host (trail ++ [.drawn (session.client.readRequest path mount)])
      { session with
        pending := session.pending ++ [(session.client.readRequest path mount, limit)] } where
  abides := keeps.abides.snoc (lawful_drawn (fun _ => keeps.token.symm) (.inr rfl))
  address := keeps.address
  token := (Trail.token?_append rfl).trans keeps.token
  requests := by
    refine List.perm_iff_count.mpr fun r => ?_
    have before := keeps.requests.count_eq r
    simp only [unsent, Trail.sent_append, Trail.sent_cons_drawn, Trail.sent_nil, Trail.drawn_append,
      Trail.drawn_cons_drawn, Trail.drawn_nil, List.count_append, List.count_nil, List.map_append,
      List.map_cons, List.map_nil] at before ⊢
    omega
  reads read member := by
    rcases List.mem_append.mp member with member | member
    · exact keeps.reads read member
    · rw [List.mem_singleton.mp member]
      rfl
  renewal := fits_append rfl (fun _ member => nomatch member) keeps.renewal

theorem keeps_send (keeps : Keeps link host trail session) {position limit : Nat} {request : Request}
    (found : session.pending[position]? = some (request, limit)) :
    Keeps link host (trail ++ [.call (.request request)])
      { session with pending := session.pending.eraseIdx position } := by
  obtain ⟨inside, same⟩ := List.getElem?_eq_some_iff.mp found
  have taken : (session.pending.map Prod.fst).Perm
      (request :: (session.pending.eraseIdx position).map Prod.fst) := by
    have taken := (List.getElem_cons_eraseIdx_perm inside).symm
    rw [same] at taken
    exact taken.map Prod.fst
  have reads : renews host request = false := by
    have get := keeps.reads _ (List.mem_of_getElem? found)
    simp [renews, show request.method = .get from get]
  have requests : (Trail.sent trail ++ request ::
      unsent { session with pending := session.pending.eraseIdx position }).Perm (Trail.drawn trail) := by
    refine List.perm_iff_count.mpr fun r => ?_
    have before := keeps.requests.count_eq r
    have moved := taken.count_eq r
    simp only [unsent, List.count_append, List.count_cons] at before moved ⊢
    omega
  exact {
    abides := keeps.abides.snoc (lawful_sent _ requests (.inr reads))
    address := keeps.address
    token := (Trail.token?_append rfl).trans keeps.token
    requests := by simpa using requests
    reads := fun read member => keeps.reads read (List.mem_of_mem_eraseIdx member)
    renewal := by
      refine fits_append rfl (fun r member => ?_) keeps.renewal
      obtain rfl := List.mem_singleton.mp member
      exact reads }

theorem keeps_wake (keeps : Keeps link host trail session) {lease : Nat}
    (waiting : session.renewal = .waiting lease) :
    Keeps link host (trail ++ [.call (.pause (Renewal.pause lease)),
        .drawn (session.client.post renewalPath [])])
      { session with renewal := .drawn (session.client.post renewalPath []) } := by
  have fits := keeps.renewal
  rw [waiting] at fits
  obtain ⟨healthy, settled⟩ := fits
  have paused : Abides link host (trail ++ [.call (.pause (Renewal.pause lease))]) :=
    keeps.abides.snoc (lawful_pause _)
  have last : Trail.token? (trail ++ [.call (.pause (Renewal.pause lease))]) =
      some session.client.token := (Trail.token?_append rfl).trans keeps.token
  have shown (full : ∀ grant ∈ Trail.grants (trail ++ [.call (.pause (Renewal.pause lease))]),
      grant.token ≠ "") : (session.client.post renewalPath []).token = Trail.token? (trail ++
        [.call (.pause (Renewal.pause lease))]) := by
    obtain ⟨grant, member, same⟩ := Trail.exists_grant_of_token? last
    have nonempty : session.client.token ≠ "" := same ▸ full grant member
    rw [last]
    simp [Client.post, nonempty]
  have drawn := paused.snoc (lawful_drawn shown (.inl (healthy.append rfl)))
  rw [List.append_assoc] at drawn
  have fits : Fits link host trail (.drawn (session.client.post renewalPath [])) := by
    refine ⟨healthy, settled, ?_⟩
    simp [renews, Client.post, Client.url, keeps.address]
  exact {
    abides := drawn
    address := keeps.address
    token := (Trail.token?_append rfl).trans keeps.token
    requests := by
      refine List.perm_iff_count.mpr fun r => ?_
      have before := keeps.requests.count_eq r
      simp only [unsent, waiting, Trail.sent_append, Trail.sent_cons_pause, Trail.sent_cons_drawn,
        Trail.sent_nil, Trail.drawn_append, Trail.drawn_cons_call, Trail.drawn_cons_drawn, Trail.drawn_nil,
        List.count_append, List.count_nil] at before ⊢
      omega
    reads := keeps.reads
    renewal := fits_append rfl (fun _ member => nomatch member) fits }

theorem keeps_renew (keeps : Keeps link host trail session) {request : Request} (s : σ)
    (drawn : session.renewal = .drawn request) :
    Keeps link host (trail ++ [.call (.request request)])
      { session with renewal := .answered request (link.exchange request renewalLimit s).1 } := by
  have fits := keeps.renewal
  rw [drawn] at fits
  obtain ⟨healthy, settled, renewal⟩ := fits
  have post : request.method = .post := by
    simp only [renews, Bool.and_eq_true, decide_eq_true_eq] at renewal
    exact renewal.1
  have requests : (Trail.sent trail ++ request :: session.pending.map Prod.fst).Perm
      (Trail.drawn trail) := by
    refine List.perm_iff_count.mpr fun r => ?_
    have before := keeps.requests.count_eq r
    simp only [unsent, drawn, List.count_append, List.count_cons, List.count_nil] at before ⊢
    omega
  exact {
    abides := keeps.abides.snoc (lawful_sent _ requests (.inl ⟨healthy, settled⟩))
    address := keeps.address
    token := (Trail.token?_append rfl).trans keeps.token
    requests := by simpa [unsent] using requests
    reads := keeps.reads
    renewal := by
      refine ⟨healthy.append rfl, ?_, ?_, post, renewalLimit, s, rfl⟩
      · simp only [Settled] at settled
        simp [settled, renewal, Nat.add_comm]
      · simp }

theorem unsent_accept (session : Session) (grant : Grant) :
    (session.accept grant).unsent = session.pending.map Prod.fst := by
  by_cases none : grant.lease = 0
  · simp [unsent, accept, Renewal.ofLease, none]
  · simp [unsent, accept, Renewal.ofLease, none]

/-- After a grant the renewal waits, unless there is no lease. -/
theorem fits_ofLease {reply : Reply} {grant : Grant} (healthy : Healthy trail)
    (due : (Trail.outcomes trail).length = (Trail.sent trail).countP (renews host)) :
    Fits link host (trail ++ [.settled reply (.ok grant)]) (.ofLease grant.lease) := by
  by_cases none : grant.lease = 0
  · rw [Renewal.ofLease, if_pos none]
    trivial
  · rw [Renewal.ofLease, if_neg none]
    refine ⟨fun outcome member => ?_, ?_⟩
    · rw [Trail.outcomes_append] at member
      rcases List.mem_append.mp member with member | member
      · exact healthy outcome member
      · exact ⟨grant, List.mem_singleton.mp member, Nat.pos_of_ne_zero none⟩
    · simp [Settled, due, Nat.add_comm]

theorem keeps_settle (keeps : Keeps link host trail session) {request : Request} {reply : Reply}
    (answered : session.renewal = .answered request reply) :
    Keeps link host (trail ++ [.settled reply (readReply Grant.decoder request.url reply)])
      (session.settle (readReply Grant.decoder request.url reply)) := by
  have fits := keeps.renewal
  rw [answered] at fits
  obtain ⟨healthy, due, sent, post, limit, s, rfl⟩ := fits
  have abides := keeps.abides.snoc (lawful_settled limit s sent post healthy)
  cases outcome : readReply Grant.decoder request.url (link.exchange request limit s).1 with
  | error problem =>
    rw [outcome] at abides
    exact {
      abides := abides
      address := keeps.address
      token := (Trail.token?_append rfl).trans keeps.token
      requests := by simpa [unsent, settle, answered] using keeps.requests
      reads := keeps.reads
      renewal := trivial }
  | ok grant =>
    rw [outcome] at abides
    exact {
      abides := abides
      address := keeps.address
      token := Trail.token?_settled _ _ grant
      requests := by
        have requests := keeps.requests
        rw [unsent, answered, List.append_nil] at requests
        simpa [settle, unsent_accept] using requests
      reads := keeps.reads
      renewal := fits_ofLease healthy due }

theorem keeps_moves {deeds : List Deed} (keeps : Keeps link host trail session)
    (moves : Moves link session deeds after) : Keeps link host (trail ++ deeds) after := by
  cases moves with
  | idle => rwa [List.append_nil]
  | prepare path mount limit => exact keeps_prepare keeps path mount limit
  | send found => exact keeps_send keeps found
  | wake waiting => exact keeps_wake keeps waiting
  | renew s drawn => exact keeps_renew keeps s drawn
  | settle answered => exact keeps_settle keeps answered
  | release held =>
    rw [List.append_nil]
    exact ⟨keeps.abides, keeps.address, keeps.token, keeps.requests, keeps.reads, keeps.renewal⟩

/-- What every step preserves holds after all of them, whatever happens and in whatever order. -/
theorem run_preserves {P : List Deed → Session → Prop}
    (step : ∀ {trail session deeds after}, P trail session → Moves link session deeds after →
      P (trail ++ deeds) after)
    (begun : P trail session) (events : List Event) (s : σ) :
    ∃ after s' deeds, (run link session events : Life σ ε Session) s = ⟨.ok after, s', deeds⟩ ∧
      P (trail ++ deeds) after := by
  induction events generalizing session trail s with
  | nil => exact ⟨session, s, [], rfl, by rwa [List.append_nil]⟩
  | cons event rest ih =>
    obtain ⟨next, s', deeds, stepped, moves⟩ := moves_of_step (ε := ε) link session event s
    obtain ⟨after, s'', more, ran, kept⟩ := ih (step begun moves) s'
    refine ⟨after, s'', deeds ++ more, ?_, ?_⟩
    · rw [run, List.foldlM_cons, Traced.bind_of_ok (congrArg Traced.Answer.outcome stepped), stepped]
      exact congrArg (fun answer : Traced.Answer Deed σ ε Session =>
        (⟨answer.outcome, answer.state, deeds ++ answer.calls⟩ : Traced.Answer Deed σ ε Session)) ran
    · rwa [← List.append_assoc]

/-- A session keeps to what its trail tells. -/
theorem keeps_run (keeps : Keeps link host trail session) (events : List Event) (s : σ) :
    ∃ after s' deeds, (run link session events : Life σ ε Session) s = ⟨.ok after, s', deeds⟩ ∧
      Keeps link host (trail ++ deeds) after :=
  run_preserves keeps_moves keeps events s

section
variable {role : AppRole} {reply : Reply} {outcome : Except Problem Grant}

/-- What a login does, unless the token of the caller is no longer live. -/
def loginDeeds (host : String) (role : AppRole) (reply : Reply) (outcome : Except Problem Grant) :
    List Deed :=
  [.drawn (loginRequest host role), .call (.request (loginRequest host role)), .settled reply outcome]

theorem enter_cases (link : Link σ) (context : Context σ) (host : String) (role : AppRole) (s : σ) :
    (∃ f, enter link context host role s = ⟨.error f, s, []⟩) ∨
      ∃ limit s',
        let reply := (link.exchange (loginRequest host role) limit s).1
        (∃ grant, readReply Grant.decoder (loginRequest host role).url reply = .ok grant ∧
          enter link context host role s =
            ⟨.ok (accept { client := { host }, renewal := .stopped } grant), s',
              loginDeeds host role reply (.ok grant)⟩) ∨
        ∃ problem, readReply Grant.decoder (loginRequest host role).url reply = .error problem ∧
          enter link context host role s =
            ⟨.error (loginFault problem), s', loginDeeds host role reply (.error problem)⟩ := by
  cases live : (context.check s).outcome with
  | error f =>
    have checked : (Life.lift context.check s).outcome = .error f := live
    refine .inl ⟨f, ?_⟩
    rw [enter, Traced.bind_of_error checked]
    rfl
  | ok _ =>
    have checked : (Life.lift context.check s).outcome = .ok () := live
    refine .inr ⟨context.token.bound (context.moment s) requestLimit,
      (link.exchange (loginRequest host role)
        (context.token.bound (context.moment s) requestLimit) s).2, ?_⟩
    intro reply
    cases outcome : readReply Grant.decoder (loginRequest host role).url reply with
    | ok grant =>
      refine .inl ⟨grant, rfl, ?_⟩
      rw [enter, Traced.bind_of_ok checked]
      simp only [bind, Traced.bind, Life.lift, Life.note, Run.read, Traced.read, Traced.record,
        exchange_apply, Context.check, outcome, reply]
      rfl
    | error problem =>
      refine .inr ⟨problem, rfl, ?_⟩
      rw [enter, Traced.bind_of_ok checked]
      simp only [bind, Traced.bind, Life.lift, Life.note, Run.read, Traced.read, Traced.record,
        exchange_apply, Context.check, outcome, reply]
      rfl

theorem renews_loginRequest : renews host (loginRequest host role) = false := by
  have other : loginPath.toList ≠ renewalPath.toList := by decide
  have apart : ({ host } : Client).url loginPath ≠ ({ host } : Client).url renewalPath := by
    intro same
    simp only [Client.url, ← String.toList_inj, String.toList_append] at same
    exact other (List.append_cancel_left same)
  have address : (loginRequest host role).url = ({ host } : Client).url loginPath := rfl
  simp [renews, address, apart]

theorem abides_login (role : AppRole) (limit : Nat) (s : σ) :
    Abides link host (loginDeeds host role (link.exchange (loginRequest host role) limit s).1
      (readReply Grant.decoder (loginRequest host role).url
        (link.exchange (loginRequest host role) limit s).1)) := by
  have healthy : Healthy [] := fun _ member => nomatch member
  have nothing : Abides link host [] := abides_nil
  have drawn := nothing.snoc (lawful_drawn (r := loginRequest host role) (fun _ => rfl) (.inl healthy))
  have sent := drawn.snoc (lawful_sent (r := loginRequest host role) [] (List.Perm.refl _)
    (.inr renews_loginRequest))
  exact sent.snoc (lawful_settled limit s (by simp) rfl (fun _ member => nomatch member))

theorem keeps_login {limit : Nat} {s : σ} {grant : Grant}
    (granted : readReply Grant.decoder (loginRequest host role).url
      (link.exchange (loginRequest host role) limit s).1 = .ok grant) :
    Keeps link host
      (loginDeeds host role (link.exchange (loginRequest host role) limit s).1 (.ok grant))
      (accept { client := { host }, renewal := .stopped } grant) where
  abides := granted ▸ abides_login role limit s
  address := rfl
  token := Trail.token?_settled [.drawn _, .call (.request _)] _ grant
  requests := by simp [loginDeeds, unsent_accept]
  reads _ member := nomatch member
  renewal := by
    have healthy : Healthy [.drawn (loginRequest host role), .call (.request (loginRequest host role))] :=
      fun _ member => nomatch member
    exact fits_ofLease healthy (by simp [renews_loginRequest])

end

/-- From the login on everything is done as it may be. -/
theorem abides_live (link : Link σ) (context : Context σ) (host : String) (role : AppRole)
    (events : List Event) (s : σ) :
    let lived := live link context host role events s
    Abides link host lived.calls ∧
      ((∃ session reply grant rest, lived.outcome = .ok session ∧
        lived.calls = loginDeeds host role reply (.ok grant) ++ rest) ∨
      ∃ f, lived.outcome = .error f ∧ (lived.calls = [] ∨ ∃ reply problem,
        lived.calls = loginDeeds host role reply (.error problem))) := by
  intro lived
  have whole : lived = (enter link context host role >>= fun session => run link session events) s := rfl
  rcases enter_cases link context host role s with
    ⟨f, entered⟩ | ⟨limit, s', ⟨grant, granted, entered⟩ | ⟨problem, refused, entered⟩⟩
  · rw [Traced.bind_of_error (congrArg Traced.Answer.outcome entered), entered] at whole
    rw [whole]
    exact ⟨abides_nil, .inr ⟨f, rfl, .inl rfl⟩⟩
  · obtain ⟨after, s'', deeds, ran, keeps⟩ := keeps_run (ε := Fault) (keeps_login granted) events s'
    rw [Traced.bind_of_ok (congrArg Traced.Answer.outcome entered), entered] at whole
    dsimp only at whole
    rw [ran] at whole
    rw [whole]
    exact ⟨keeps.abides, .inl ⟨after, _, grant, deeds, rfl, rfl⟩⟩
  · rw [Traced.bind_of_error (congrArg Traced.Answer.outcome entered), entered] at whole
    rw [whole]
    have abides : Abides link host _ := abides_login role limit s
    rw [refused] at abides
    exact ⟨abides, .inr ⟨_, rfl, .inr ⟨_, problem, rfl⟩⟩⟩

/-- The tokens that a client shows. A login shows none. It comes first, and unless it is granted there is
no client and nothing else is done. From then on, whatever the server answers and in whatever order the
caller's reads and the renewal take turns: a request shows the token that was granted last when it was
made out; a renewal is sent only if the login and every renewal before it were granted, each with a lease;
a grant is what an answer without an error status says if it can be read; and once a renewal has failed,
none is made out or sent again, nothing is granted, and the requests made out show the same token as
before. -/
theorem token_protocol (link : Link σ) (context : Context σ) (host : String) (role : AppRole)
    (events : List Event) (s : σ)
    (full : ∀ grant ∈ Trail.grants (live link context host role events s).calls, grant.token ≠ "") :
    let lived := live link context host role events s
    let login := loginRequest host role
    login.token = none ∧
    ((∃ session reply grant rest, lived.outcome = .ok session ∧
        lived.calls = [.drawn login, .call (.request login), .settled reply (.ok grant)] ++ rest) ∨
      ∃ f, lived.outcome = .error f ∧ (lived.calls = [] ∨ ∃ reply problem,
        lived.calls = [.drawn login, .call (.request login), .settled reply (.error problem)])) ∧
    ∀ before d after, lived.calls = before ++ d :: after →
      (∀ r, d = .drawn r → r.token = Trail.token? before) ∧
      (∀ r, d = .call (.request r) →
        ∃ unsent, (Trail.sent before ++ r :: unsent).Perm (Trail.drawn before)) ∧
      (∀ r, d = .call (.request r) → renews host r = true →
        (∀ outcome ∈ Trail.outcomes before, ∃ grant, outcome = .ok grant ∧ 0 < grant.lease) ∧
        (Trail.outcomes before).length = 1 + (Trail.sent before).countP (renews host)) ∧
      (∀ reply outcome, d = .settled reply outcome → ∃ r limit s', r ∈ Trail.sent before ∧
        r.method = .post ∧ reply = (link.exchange r limit s').1 ∧
        ∀ grant, outcome = .ok grant ↔ ∃ status body content, reply = .answered status body ∧
          isFailure status = false ∧ Document.Json.read body = some content ∧
          Grant.decoder content = .ok grant) ∧
      ∀ reply problem, d = .settled reply (.error problem) →
        Trail.outcomes after = [] ∧
        (∀ r ∈ Trail.drawn after ++ Trail.sent after, renews host r = false) ∧
        ∀ r ∈ Trail.drawn after, r.token = Trail.token? before := by
  intro lived login
  obtain ⟨abides, begins⟩ := abides_live link context host role events s
  refine ⟨rfl, begins, fun before d after split => ?_⟩
  have lawful := abides before d after split
  have fullBefore : ∀ grant ∈ Trail.grants before, grant.token ≠ "" := by
    intro grant member
    refine full grant ?_
    rw [show (live link context host role events s).calls = _ from split, Trail.grants_append]
    exact List.mem_append_left _ member
  refine ⟨fun r is => lawful.drawn r is fullBefore, lawful.sent, lawful.renewal, ?_, ?_⟩
  · intro reply outcome is
    obtain ⟨r, limit, s', sent, post, answer, same⟩ := lawful.settled reply outcome is
    refine ⟨r, limit, s', sent, post, answer, fun grant => ?_⟩
    rw [same]
    exact readReply_eq_ok_iff
  · rintro reply problem rfl
    rw [split] at abides
    exact ⟨abides.stopped.1, abides.stopped.2, abides.kept fullBefore⟩

/-- A server that gives these replies one after the other. -/
def scripted : Link (List Reply) where
  exchange _ _ replies := (replies.headD .timedOut, replies.tail)

/-- A login, a read made out before a renewal and sent after it, a read made out after it, and a read
after a renewal that fails. -/
theorem token_protocol_scripted :
    let auth (token : String) : Reply := .answered 200
      ("\x7b\"auth\":\x7b\"client_token\":\"" ++ token ++ "\",\"lease_duration\":400\x7d\x7d")
    let context : Context (List Reply) :=
      { world := fun _ => {}, moment := fun _ => {}, token := { family := 0 } }
    let events : List Event := [.prepare "a" none 0, .wake, .renew, .send 0, .settle, .prepare "b" none 0,
      .wake, .renew, .send 0, .settle, .prepare "c" none 0, .send 0, .wake, .renew]
    let lived := live scripted context "http://vault" { roleId := "r", secretId := "s" } events
      [auth "t1", auth "t2", .answered 404 "", .answered 500 ""]
    (∀ grant ∈ Trail.grants lived.calls, grant.token ≠ "") ∧
      (Trail.sent lived.calls).map Request.token =
        [none, some "t1", some "t1", some "t2", some "t2", some "t2"] ∧
      ∀ before r after, lived.calls = before ++ .drawn r :: after → r.token = Trail.token? before := by
  intro auth context events lived
  have full : ∀ grant ∈ Trail.grants lived.calls, grant.token ≠ "" := by decide +kernel
  obtain ⟨_, _, lawful⟩ := token_protocol scripted context "http://vault"
    { roleId := "r", secretId := "s" } events _ full
  exact ⟨full, by decide +kernel, fun before r after split => (lawful before _ after split).1 r rfl⟩

end Session
end Directives.Vault
