import Directives.Proofs.Commands
import Directives.Proofs.Runaway

/-! What resolving a file leaves as it is. Variables and files are only looked at, so the world is the same
afterwards, as long as requests leave it alone. -/
namespace Directives
open Builtin (Still)
open Vault (Client)

namespace Traced
variable {κ σ ε α : Type} {S : σ → Prop}

/-- From a state of the set the computation does not lead out of the set. -/
abbrev Keeps (S : σ → Prop) (m : Traced κ σ ε α) : Prop :=
  Ensures S (fun _ => True) (fun _ => True) (fun _ => True) m

theorem keeps_of_stays {m : Traced κ σ ε α} (stays : ∀ {s}, S s → S (m s).state) : Keeps S m :=
  ⟨stays, fun _ _ _ => trivial, fun _ _ => trivial, fun _ _ => trivial⟩

theorem keeps_record (call : κ) : Keeps S (record call : Traced κ σ ε Unit) := keeps_of_stays id

theorem keeps_read (view : σ → α) : Keeps S (read view : Traced κ σ ε α) := keeps_of_stays id

theorem keeps_ofExcept (outcome : Except ε α) : Keeps S (ofExcept outcome : Traced κ σ ε α) :=
  .ofExcept (fun _ _ => trivial) fun _ _ => trivial

end Traced

open Traced (Keeps keeps_of_stays keeps_record keeps_read keeps_ofExcept)
variable {σ : Type} {S : σ → Prop} {world : World} {context : Context σ}

/-- In a world that holds still, so does what is outside a walk. -/
theorem Tree.keeps_resolve (still : Still context S world) (maxDepth : Nat) (t : Tree) :
    Keeps S (t.resolve Builtin.registry context maxDepth) :=
  keeps_of_stays fun {s} h =>
    have contained := Expansion.contained_expandTree still List.nodup_nil (by simp) (Nat.zero_add maxDepth) t
    (contained.stays (show Walk.At S [] { outside := s } from ⟨h, rfl⟩)).1

namespace Vault
variable {link : Link σ} (quiet : ∀ request limit {s}, S s → S (link.exchange request limit s).2)
include quiet

theorem Client.keeps_read (c : Client) (moment : σ → Cancel.Moment) (token : Cancel.Token) (path : String)
    (mount : Option String) : Keeps S ((c.store link moment).read token path mount) :=
  keeps_of_stays fun {s} h => by
    cases live : token.check (moment s) with
    | error f => rwa [Client.store_read_of_error live]
    | ok _ =>
      rw [Client.store_read_of_ok live]
      exact quiet _ _ h

theorem Session.keeps_logInAs (host : String) (role : AppRole) :
    Keeps S (Session.logInAs link context host role) := by
  have lifted {α : Type} {m : Run σ Fault α} (keeps : Keeps S m) : Keeps S (Life.lift m) :=
    keeps_of_stays fun h => keeps.stays h
  have checked : Keeps S context.check := keeps_of_stays id
  have sent (request : Request) (limit : Nat) : Keeps S (exchange link request limit : Run σ Fault Reply) :=
    keeps_of_stays fun h => quiet request limit h
  have entered : Keeps S (Session.enter link context host role) := by
    refine (lifted checked).bind fun _ _ => (lifted (keeps_read _)).bind fun limit _ =>
      (keeps_record _).bind fun _ _ => (lifted (sent _ limit)).bind fun reply _ =>
        (keeps_record _).bind fun _ _ => ?_
    cases readReply Grant.decoder (Session.loginRequest host role).url reply with
    | ok grant => exact .pure trivial
    | error problem => exact .fail trivial
  exact keeps_of_stays fun h => entered.stays h

theorem Session.keeps_ofEnvironment (still : Still { context with secrets := none } S world) :
    Keeps S (Session.ofEnvironment link context) := by
  -- The credentials are resolved while there is no store, so only the login sends anything.
  have loaded (path : String) : Keeps S (Credentials.load context path) :=
    (keeps_record _).bind fun _ _ => (keeps_read _).bind fun raw _ => (keeps_ofExcept raw).bind fun raw _ =>
      (Tree.keeps_resolve still defaultMaxDepth raw).bind fun resolved _ => keeps_ofExcept _
  have entered (credentials : Credentials) : Keeps S (Session.logIn link context credentials) := by
    rw [Session.logIn]
    split
    · exact Session.keeps_logInAs quiet credentials.host credentials.role
    · exact .fail trivial
  refine (keeps_record _).bind fun _ _ => (keeps_read _).bind fun path _ => ?_
  split
  · exact .fail trivial
  · exact .fail trivial
  · exact (loaded _).bind fun credentials _ => entered credentials

end Vault

namespace Command
variable {m : Machine σ} (quiet : ∀ request limit s, m.world (m.link.exchange request limit s).2 = m.world s)
  (file : String) (limits : Limits)
include quiet

/-- Set-up leaves the world as it is, and the context that comes of it holds still. -/
theorem ensures_attachVault : Traced.Ensures (m.world · = world) (fun _ => True) (fun _ => True)
    (fun context => Still context (m.world · = world) world) (attachVault m limits (m.context limits)) := by
  have alone : Still (m.context limits) (m.world · = world) world := ⟨id, fun found => nomatch found⟩
  have quiet : ∀ request limit {s}, m.world s = world → m.world (m.link.exchange request limit s).2 = world :=
    fun request limit s h => (quiet request limit s).trans h
  constructor
  case stays =>
    intro s h
    rcases attachVault_cases m limits s with ⟨_, _, state⟩ | ⟨_, _, state⟩
    · rwa [state]
    · rw [state]
      exact (Vault.Session.keeps_ofEnvironment quiet alone).stays h
  case calls => exact fun _ _ _ => trivial
  case failure => exact fun _ _ => trivial
  case result =>
    intro s context _ done
    rcases context_of_attachVault done with rfl | ⟨c, rfl⟩
    · exact alone
    · refine ⟨id, fun found => ?_⟩
      obtain rfl := Option.some.inj found
      exact fun path mount _ h => (Client.keeps_read quiet c m.moment _ path mount).stays h

/-- Resolving a file changes nothing in the world. -/
theorem world_resolveFile (s : σ) : m.world (resolveFile m file limits s).state = m.world s := by
  have setUp : Traced.Ensures (m.world · = m.world s) _ _ _ _ := ensures_attachVault quiet limits
  have resolved : Keeps (m.world · = m.world s) (resolveFile m file limits) := by
    refine (keeps_record _).bind fun _ _ => (keeps_read _).bind fun raw _ =>
      ((keeps_ofExcept raw).mapError fun _ => id).bind fun raw _ => ?_
    split
    · exact (setUp.mapError fun _ => id).bind fun context still =>
        (Tree.keeps_resolve still defaultMaxDepth raw).mapError fun _ => id
    · exact .fail trivial
  exact resolved.stays rfl

end Command
end Directives
