import Mathlib.Data.List.Chain
import Mathlib.Data.List.TakeWhile
import Directives.Network.Transport

/-! What goes over the wire for a request: nothing, or the request itself and behind it those that follow
its answers, one after the other. -/
namespace Directives

theorem Request.onWire_of_not_mem {request : Request} (plain : '#' ∉ request.url.toList) :
    request.onWire = request := by
  have whole : request.url.toList.takeWhile (· ≠ '#') = request.url.toList := by
    refine List.takeWhile_eq_self_iff.mpr fun c member => decide_eq_true ?_
    rintro rfl
    exact plain member
  rw [onWire, whole, String.ofList_toList]

namespace Network.Transport
variable {σ : Type} {t : Transport σ} {redirects limit : Nat} {request : Request} {s : σ}

/-- The second request follows the answer to the first. -/
def Leads (t : Transport σ) (first second : Sent) : Prop :=
  first.reply.isRedirect = true ∧
    ∃ next, t.follow first.request first.location first.reply = .ok next ∧ second.request = next.onWire

/-- A request that only gets, and shows this token. -/
structure Follows (token : Option String) (request : Request) : Prop where
  gets : request.method = .get
  bodiless : request.body = none
  shows : request.token = token

/-- What was sent for a request, and what came of it. -/
structure Delivers (t : Transport σ) (redirects : Nat) (request : Request) (delivery : Delivery σ) :
    Prop where
  first : ∀ e ∈ delivery.log.head?, e.request = request.onWire
  later : ∀ e ∈ delivery.log.tail, Follows request.token e.request
  short : delivery.log.length ≤ redirects + 1
  chained : delivery.log.IsChain (Leads t)
  settled : delivery.reply.isRedirect = false
  last : ∀ e ∈ delivery.log.getLast?, e.reply.isRedirect = false → delivery.reply = e.reply
  answered : ∀ status body, delivery.reply = .answered status body →
    ∃ e ∈ delivery.log.getLast?, e.reply = delivery.reply

section
variable {asked next : Request} {location : Option String} {reply instead : Reply}

/-- No answer comes of an answer that is not followed. -/
theorem not_answered_of_follow (refused : t.follow asked location reply = .error instead) :
    instead.isRedirect = false ∧ ∀ status body, instead ≠ .answered status body := by
  cases reply with
  | answered status body =>
    rw [follow] at refused
    split at refused
    · cases refused
      exact ⟨rfl, fun _ _ same => nomatch same⟩
    · split at refused <;> cases refused
      exact ⟨rfl, fun _ _ same => nomatch same⟩
  | _ =>
    cases refused
    exact ⟨rfl, fun _ _ same => nomatch same⟩

theorem follows_of_follow (followed : t.follow asked location reply = .ok next) :
    Follows asked.token next := by
  cases reply with
  | answered status body =>
    rw [follow] at followed
    split at followed
    · cases followed
    · split at followed <;> cases followed
      exact ⟨rfl, rfl, rfl⟩
  | _ => cases followed

end

namespace Delivers

theorem unsent (problem : Option String) :
    Delivers t redirects request ⟨problem.elim .timedOut .failed, [], s⟩ where
  first _ member := nomatch member
  later _ member := nomatch member
  short := Nat.zero_le _
  chained := .nil
  settled := by cases problem <;> rfl
  last _ member := nomatch member
  answered _ _ came := by cases problem <;> cases came

theorem single {own : Sent} {reply : Reply} (first : own.request = request.onWire)
    (settled : reply.isRedirect = false) (last : own.reply.isRedirect = false → reply = own.reply)
    (answered : ∀ status body, reply = .answered status body → own.reply = reply) :
    Delivers t redirects request ⟨reply, [own], s⟩ where
  first e member := by
    cases member
    exact first
  later _ member := nomatch member
  short := Nat.le_add_left 1 redirects
  chained := .singleton own
  settled := settled
  last e member := by
    cases member
    exact last
  answered status body came := ⟨own, rfl, answered status body came⟩

theorem cons {own : Sent} {next : Request} {rest : Delivery σ} (first : own.request = request.onWire)
    (redirect : own.reply.isRedirect = true)
    (followed : t.follow own.request own.location own.reply = .ok next)
    (delivers : Delivers t redirects next rest) :
    Delivers t (redirects + 1) request ⟨rest.reply, own :: rest.log, rest.state⟩ := by
  have follows : Follows request.token next := by
    have token : request.token = own.request.token := by rw [first, Request.onWire]
    rw [token]
    exact follows_of_follow followed
  obtain ⟨reply, log, state⟩ := rest
  constructor
  case first =>
    intro e member
    cases member
    exact first
  case later =>
    intro e member
    rw [← follows.shows]
    cases log with
    | nil => cases member
    | cons head tail =>
      rcases List.mem_cons.mp member with rfl | member
      · rw [delivers.first e rfl]
        exact ⟨follows.gets, follows.bodiless, rfl⟩
      · exact delivers.later e member
  case short => exact Nat.succ_le_succ delivers.short
  case chained =>
    refine List.isChain_cons.mpr ⟨fun e member => ?_, delivers.chained⟩
    exact ⟨redirect, next, followed, delivers.first e member⟩
  case settled => exact delivers.settled
  case last =>
    intro e member plain
    cases log with
    | nil =>
      obtain rfl := Option.some.inj member
      cases redirect.symm.trans plain
    | cons head tail => exact delivers.last e (by rwa [List.getLast?_cons_cons] at member) plain
  case answered =>
    intro status body came
    obtain ⟨e, member, same⟩ := delivers.answered status body came
    cases log with
    | nil => cases member
    | cons head tail => exact ⟨e, by rwa [List.getLast?_cons_cons], same⟩

end Delivers

theorem delivers_deliver (t : Transport σ) (redirects : Nat) (request : Request) (limit : Nat) (s : σ) :
    Delivers t redirects request (t.deliver redirects request limit s) := by
  induction redirects generalizing request limit s with
  | zero =>
    unfold deliver
    split
    · exact .unsent _
    · split
      · next redirect =>
        exact .single rfl rfl (fun plain => absurd redirect (Bool.eq_false_iff.mp plain))
          fun _ _ came => nomatch came
      · next plain => exact .single rfl (by simpa using plain) (fun _ => rfl) fun _ _ _ => rfl
  | succ left ih =>
    unfold deliver
    split
    · exact .unsent _
    · next reply location after sent =>
      split
      · next redirect =>
        dsimp only
        split
        · next instead refused =>
          obtain ⟨settled, unanswered⟩ := not_answered_of_follow refused
          exact .single rfl settled (fun plain => absurd redirect (Bool.eq_false_iff.mp plain))
            fun _ _ came => absurd came (unanswered _ _)
        · next followed => exact .cons rfl redirect followed (ih _ _ _)
      · next plain => exact .single rfl (by simpa using plain) (fun _ => rfl) fun _ _ _ => rfl

theorem log_of_unsent {problem : Option String} (unsent : (t.send request limit s).1 = .unsent problem) :
    (t.deliver redirects request limit s).log = [] := by
  unfold deliver
  split
  · rfl
  · next sent =>
    rw [sent] at unsent
    cases unsent

theorem log_of_sent (redirects : Nat) {reply : Reply} {location : Option String}
    (sent : (t.send request limit s).1 = .sent reply location) :
    ∃ rest, (t.deliver redirects request limit s).log = ⟨request.onWire, reply, location⟩ :: rest := by
  unfold deliver
  split
  · next unsent =>
    rw [unsent] at sent
    cases sent
  · next came =>
    rw [came] at sent
    cases sent
    split
    · cases redirects with
      | zero => exact ⟨[], rfl⟩
      | succ left =>
        dsimp only
        split
        · exact ⟨[], rfl⟩
        · exact ⟨_, rfl⟩
    · exact ⟨[], rfl⟩

/-- What is sent for a request under so much time: nothing, if it is not taken or nobody is reached, and
otherwise the request itself and, if its answer points elsewhere, what follows it. -/
inductive Serves (t : Transport σ) (request : Request) (limit : Nat) (s : σ) : List Sent → Prop
  | unsent {problem : Option String} : (t.send request limit s).1 = .unsent problem →
    Serves t request limit s []
  | sent {reply : Reply} {location : Option String} {rest : List Sent} :
    (t.send request limit s).1 = .sent reply location → (reply.isRedirect = false → rest = []) →
    rest.length ≤ maxRedirects → (∀ e ∈ rest, Follows request.token e.request) →
    (⟨request.onWire, reply, location⟩ :: rest).IsChain (Leads t) →
    Serves t request limit s (⟨request.onWire, reply, location⟩ :: rest)

theorem serves_deliver (t : Transport σ) (request : Request) (limit : Nat) (s : σ) :
    t.Serves request limit s (t.deliver maxRedirects request limit s).log := by
  have delivers := delivers_deliver t maxRedirects request limit s
  cases came : (t.send request limit s).1 with
  | unsent problem =>
    rw [log_of_unsent came]
    exact .unsent came
  | sent reply location =>
    obtain ⟨rest, log⟩ := log_of_sent maxRedirects came
    obtain ⟨_, later, short, chained, _⟩ := delivers
    rw [log] at later short chained ⊢
    refine .sent came (fun plain => ?_) (Nat.le_of_succ_le_succ short) later chained
    cases rest with
    | nil => rfl
    | cons next rest =>
      obtain ⟨⟨redirect, _⟩, _⟩ := List.isChain_cons_cons.mp chained
      cases redirect.symm.trans plain

end Network.Transport
end Directives
