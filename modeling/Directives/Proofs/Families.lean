import Mathlib.Logic.Relation
import Directives.Cancel.History
import Directives.Proofs.Deadlines

/-! Tokens over a whole history. What is done is numbered, and a token is known by the number of the deed that
made it. Copies and deadlines connect tokens to families; a family is cancelled as a whole, while each token
has its own deadline or that of the token it is a copy of. -/
namespace Directives.Cancel

structure Deed where
  now : Nat
  action : Action
  deriving DecidableEq, Repr

/-- The names after all that was done, from the first deed to the last. -/
def Registered.after (history : List Deed) : Registered :=
  history.foldl (fun r deed => r.act deed.now deed.action) {}

section
variable (history : List Deed)

/-- The deed of this number puts a token of its own under the name. There is no copy of a token that was
never made. -/
inductive Makes : Nat → String → Prop
  | fresh {i now : Nat} {name : String} : history[i]? = some ⟨now, .fresh name⟩ → Makes i name
  | timeout {i now span : Nat} {name : String} : history[i]? = some ⟨now, .timeout name span⟩ → Makes i name
  | copy {i j now : Nat} {name target : String} : history[i]? = some ⟨now, .copy name target⟩ →
    j < i → Makes j name → Makes i target
  | deadline {i j now instant : Nat} {name target : String} :
    history[i]? = some ⟨now, .deadline name target instant⟩ → j < i → Makes j name → Makes i target

/-- Of the first deeds, so many of them, the one of this number was the last to put a token under the
name. -/
structure Under (count : Nat) (name : String) (i : Nat) : Prop where
  early : i < count
  makes : Makes history i name
  last : ∀ j, i < j → j < count → ¬ Makes history j name

/-- The token of one deed is made of that of another, which stood under the name at that time. -/
inductive Linked : Nat → Nat → Prop
  | copy {i j now : Nat} {name target : String} : history[i]? = some ⟨now, .copy name target⟩ →
    Under history i name j → Linked i j
  | deadline {i j now instant : Nat} {name target : String} :
    history[i]? = some ⟨now, .deadline name target instant⟩ → Under history i name j → Linked i j

/-- Tokens that copies and deadlines connect. -/
def Family : Nat → Nat → Prop := Relation.EqvGen (Linked history)

/-- The deadline of the token that a deed makes: the one that it sets, or, for a copy, the one of the token
that it copies. -/
inductive Due : Nat → Option Nat → Prop
  | fresh {i now : Nat} {name : String} : history[i]? = some ⟨now, .fresh name⟩ → Due i none
  | timeout {i now span : Nat} {name : String} : history[i]? = some ⟨now, .timeout name span⟩ →
    Due i (some (now + span))
  | copy {i j now : Nat} {name target : String} {due : Option Nat} :
    history[i]? = some ⟨now, .copy name target⟩ → Under history i name j → Due j due → Due i due
  | deadline {i now instant : Nat} {name target : String} :
    history[i]? = some ⟨now, .deadline name target instant⟩ → Due i (some instant)

/-- The deed of this number cancels the token of another. -/
def Cancels (k i : Nat) : Prop :=
  ∃ now name, history[k]? = some ⟨now, .cancel name⟩ ∧ Under history k name i

/-- Some token of the family was cancelled. -/
def Raised (i : Nat) : Prop := ∃ k j, Cancels history k j ∧ Family history i j

end

/-- The first deeds, so many of them, are the same. -/
def Alike (count : Nat) (history history' : List Deed) : Prop :=
  ∀ i < count, history'[i]? = history[i]?

section
variable {history history' : List Deed} {deed : Deed} {count i j k : Nat} {name : String}
  {due : Option Nat}

theorem Alike.symm (alike : Alike count history history') : Alike count history' history :=
  fun i early => (alike i early).symm

theorem Alike.mono (alike : Alike count history history') (fits : k ≤ count) :
    Alike k history history' :=
  fun i early => alike i (early.trans_le fits)

theorem alike_append (history later : List Deed) : Alike history.length history (history ++ later) :=
  fun _ early => List.getElem?_append_left early

theorem Makes.lt (makes : Makes history i name) : i < history.length := by
  cases makes with
  | fresh done | timeout done | copy done | deadline done => exact (List.getElem?_eq_some_iff.mp done).1

theorem Linked.lt (linked : Linked history i j) : j < i ∧ i < history.length := by
  cases linked with
  | copy done under | deadline done under =>
    exact ⟨under.early, (List.getElem?_eq_some_iff.mp done).1⟩

theorem Under.unique (under : Under history count name i) (under' : Under history count name j) :
    i = j := by
  rcases Nat.lt_trichotomy i j with before | same | after
  · exact absurd under'.makes (under.last j before under'.early)
  · exact same
  · exact absurd under.makes (under'.last i after under.early)

/-! What was done early does not depend on what is done later. -/

theorem Makes.alike (alike : Alike count history history') (early : i < count)
    (makes : Makes history i name) : Makes history' i name := by
  induction makes with
  | fresh done => exact .fresh ((alike _ early).trans done)
  | timeout done => exact .timeout ((alike _ early).trans done)
  | copy done before _ ih => exact .copy ((alike _ early).trans done) before (ih (before.trans early))
  | deadline done before _ ih =>
    exact .deadline ((alike _ early).trans done) before (ih (before.trans early))

theorem Under.alike (alike : Alike count history history') (under : Under history count name i) :
    Under history' count name i := by
  constructor
  · exact under.early
  · exact under.makes.alike alike under.early
  · intro j after early makes
    exact under.last j after early (makes.alike alike.symm early)

theorem Linked.alike (alike : Alike count history history') (early : i < count)
    (linked : Linked history i j) : Linked history' i j := by
  cases linked with
  | copy done under => exact .copy ((alike i early).trans done) (under.alike (alike.mono early.le))
  | deadline done under =>
    exact .deadline ((alike i early).trans done) (under.alike (alike.mono early.le))

theorem Due.alike (alike : Alike count history history') (early : i < count) (owed : Due history i due) :
    Due history' i due := by
  induction owed with
  | fresh done => exact .fresh ((alike _ early).trans done)
  | timeout done => exact .timeout ((alike _ early).trans done)
  | copy done under _ ih =>
    exact .copy ((alike _ early).trans done) (under.alike (alike.mono early.le))
      (ih (under.early.trans early))
  | deadline done => exact .deadline ((alike _ early).trans done)

theorem Cancels.alike (alike : Alike count history history') (early : k < count)
    (cancels : Cancels history k i) : Cancels history' k i := by
  obtain ⟨now, name, done, under⟩ := cancels
  exact ⟨now, name, (alike k early).trans done, under.alike (alike.mono early.le)⟩

theorem Family.append (family : Family history i j) (later : List Deed) :
    Family (history ++ later) i j := by
  apply Relation.EqvGen.mono _ i j family
  intro i j linked
  exact linked.alike (alike_append history later) linked.lt.2

/-- With one more deed, a token is under a name if that deed put it there, or did not and the token was there
before. -/
theorem under_snoc : Under (history ++ [deed]) (history.length + 1) name i ↔
    i = history.length ∧ Makes (history ++ [deed]) history.length name ∨
      ¬ Makes (history ++ [deed]) history.length name ∧ Under history history.length name i := by
  have alike := alike_append history [deed]
  constructor
  · intro under
    rcases Nat.lt_succ_iff_lt_or_eq.mp under.early with early | rfl
    · right
      constructor
      · exact under.last history.length early (Nat.lt_succ_self _)
      · constructor
        · exact early
        · exact under.makes.alike alike.symm early
        · intro j after before makes
          exact under.last j after (before.trans (Nat.lt_succ_self _)) (makes.alike alike before)
    · exact .inl ⟨rfl, under.makes⟩
  · rintro (⟨rfl, makes⟩ | ⟨silent, under⟩)
    · refine ⟨Nat.lt_succ_self _, makes, fun j after before => ?_⟩
      omega
    · constructor
      · exact under.early.trans (Nat.lt_succ_self _)
      · exact under.makes.alike alike under.early
      · intro j after before makes
        rcases Nat.lt_succ_iff_lt_or_eq.mp before with before | rfl
        · exact under.last j after before (makes.alike alike.symm before)
        · exact silent makes

end

theorem Moment.mem_raise {m : Moment} {family other : Nat} :
    other ∈ (m.raise family).raised ↔ other ∈ m.raised ∨ other = family := by
  rw [Moment.raise]
  split
  · next old =>
    constructor
    · exact .inl
    · rintro (member | rfl)
      · exact member
      · exact List.contains_iff_mem.mp old
  · rw [List.mem_cons, or_comm]

/-- The name of the token that an action makes another one of. -/
def Action.source? : Action → Option String
  | .copy name _ | .deadline name _ _ => some name
  | _ => none

namespace Registered
variable {r : Registered} {now : Nat} {action : Action} {name target : String} {t : Token}

def makes? (r : Registered) (now : Nat) : Action → Option (String × Token)
  | .fresh name => some (name, { family := r.families })
  | .timeout name span => some (name, { family := r.families, deadline := some (now + span) })
  | .copy name target => (r.token? name).map fun t => (target, t)
  | .deadline name target instant =>
    (r.token? name).map fun t => (target, { t with deadline := some instant })
  | .cancel _ => none

theorem token?_bind : (r.bind target t).token? name = if name = target then some t else r.token? name := by
  rw [token?, bind, List.lookup_cons]
  by_cases same : name = target
  · simp [same]
  · have other : (name == target) = false := by simpa using same
    simp [other, same, token?]

theorem token?_act_of_makes (made : r.makes? now action = some (target, t)) :
    (r.act now action).token? name = if name = target then some t else r.token? name := by
  cases action with
  | fresh | timeout =>
    cases made
    exact token?_bind
  | copy source | deadline source =>
    obtain ⟨u, found, same⟩ := Option.map_eq_some_iff.mp made
    cases same
    rw [act, found]
    exact token?_bind
  | cancel => cases made

theorem token?_act_of_silent (silent : r.makes? now action = none) :
    (r.act now action).token? name = r.token? name := by
  cases action with
  | fresh | timeout => cases silent
  | copy source | deadline source =>
    rw [act, Option.map_eq_none_iff.mp silent]
  | cancel source =>
    rw [act]
    cases r.token? source <;> rfl

/-- The token that an action makes is of a new family, or of that of the token that it is made of. -/
theorem family_of_makes (made : r.makes? now action = some (target, t)) :
    action.source? = none ∧ t.family = r.families ∧ r.families < (r.act now action).families ∨
      ∃ source u, action.source? = some source ∧ r.token? source = some u ∧ t.family = u.family := by
  cases action with
  | fresh | timeout =>
    cases made
    exact .inl ⟨rfl, rfl, Nat.lt_succ_self _⟩
  | copy source | deadline source =>
    obtain ⟨u, found, same⟩ := Option.map_eq_some_iff.mp made
    cases same
    exact .inr ⟨source, _, rfl, found, rfl⟩
  | cancel => cases made

theorem unknown_of_silent {source : String} (silent : r.makes? now action = none)
    (names : action.source? = some source) : r.token? source = none := by
  cases action with
  | copy | deadline =>
    cases names
    exact Option.map_eq_none_iff.mp silent
  | fresh | timeout | cancel => cases names

theorem families_le_act : r.families ≤ (r.act now action).families := by
  cases action with
  | fresh | timeout => exact Nat.le_succ _
  | copy source | deadline source | cancel source =>
    rw [act]
    cases r.token? source <;> exact Nat.le_refl _

/-- An action cancels the family of the token that it names. -/
theorem mem_raised_act {family : Nat} : family ∈ (r.act now action).raised ↔
    family ∈ r.raised ∨ ∃ name t, action = .cancel name ∧ r.token? name = some t ∧ family = t.family := by
  cases action with
  | fresh | timeout => simp [act, bind]
  | copy source | deadline source =>
    rw [act]
    cases r.token? source <;> simp [bind]
  | cancel source =>
    rw [act]
    cases found : r.token? source with
    | none => simp [found]
    | some t => simp [Moment.mem_raise, moment, found]

end Registered

/-- A history and the tokens that its deeds made account for what is under the names, for the families and
for those that were cancelled. -/
structure Accounts (history : List Deed) (r : Registered) (made : Nat → Token) : Prop where
  under : ∀ {name i}, Under history history.length name i → r.token? name = some (made i)
  known : ∀ {name t}, r.token? name = some t → ∃ i, Under history history.length name i
  unknown : ∀ {name i}, r.token? name = none → ¬ Makes history i name
  linked : ∀ {i j}, Linked history i j → (made i).family = (made j).family
  related : ∀ {i j name name'}, Makes history i name → Makes history j name' →
    (made i).family = (made j).family → Family history i j
  bounded : ∀ {i name}, Makes history i name → (made i).family < r.families
  due : ∀ {i name due}, Makes history i name → (Due history i due ↔ due = (made i).deadline)
  raised : ∀ {family}, family ∈ r.raised ↔ ∃ k i, Cancels history k i ∧ (made i).family = family

section
variable {history : List Deed} {r : Registered} {made : Nat → Token} {deed : Deed} {name target : String}
  {t : Token} {i j : Nat}

theorem getElem?_snoc : (history ++ [deed])[history.length]? = some deed :=
  List.getElem?_concat_length

theorem Accounts.token?_iff (accounts : Accounts history r made) :
    r.token? name = some t ↔ ∃ i, Under history history.length name i ∧ made i = t := by
  constructor
  · intro found
    obtain ⟨i, under⟩ := accounts.known found
    exact ⟨i, under, Option.some.inj ((accounts.under under).symm.trans found)⟩
  · rintro ⟨i, under, rfl⟩
    exact accounts.under under

/-- A deed makes a token just if its action does. -/
theorem Accounts.makes_iff (accounts : Accounts history r made) :
    Makes (history ++ [deed]) history.length name ↔
      ∃ t, r.makes? deed.now deed.action = some (name, t) := by
  have alike := alike_append history [deed]
  have known {source : String} {j : Nat} (early : j < history.length)
      (makes : Makes (history ++ [deed]) j source) : ∃ t, r.token? source = some t := by
    cases found : r.token? source with
    | none => exact absurd (makes.alike alike.symm early) (accounts.unknown found)
    | some t => exact ⟨t, rfl⟩
  constructor
  · intro makes
    cases makes with
    | fresh done | timeout done =>
      cases getElem?_snoc.symm.trans done
      exact ⟨_, rfl⟩
    | copy done before makes | deadline done before makes =>
      cases getElem?_snoc.symm.trans done
      obtain ⟨t, found⟩ := known before makes
      simp [Registered.makes?, found]
  · rintro ⟨t, made⟩
    obtain ⟨now, action⟩ := deed
    cases action with
    | fresh | timeout =>
      cases made
      first | exact .fresh getElem?_snoc | exact .timeout getElem?_snoc
    | copy source | deadline source =>
      obtain ⟨u, found, same⟩ := Option.map_eq_some_iff.mp made
      cases same
      obtain ⟨j, under⟩ := accounts.known found
      first
        | exact .copy getElem?_snoc under.early (under.makes.alike alike under.early)
        | exact .deadline getElem?_snoc under.early (under.makes.alike alike under.early)
    | cancel => cases made

/-- A deed leaves the token under every name under which it puts none. -/
theorem Accounts.token?_of_silent (accounts : Accounts history r made)
    (silent : ¬ Makes (history ++ [deed]) history.length name) :
    (r.act deed.now deed.action).token? name = r.token? name := by
  cases makes : r.makes? deed.now deed.action with
  | none => exact Registered.token?_act_of_silent makes
  | some pair =>
    have other : name ≠ pair.1 := by
      rintro rfl
      exact silent (accounts.makes_iff.mpr ⟨pair.2, makes⟩)
    rw [Registered.token?_act_of_makes makes, if_neg other]

theorem linked_snoc : Linked (history ++ [deed]) history.length j ↔
    ∃ source, deed.action.source? = some source ∧ Under history history.length source j := by
  have alike := alike_append history [deed]
  constructor
  · intro linked
    cases linked with
    | copy done under | deadline done under =>
      cases getElem?_snoc.symm.trans done
      exact ⟨_, rfl, under.alike alike.symm⟩
  · rintro ⟨source, names, under⟩
    obtain ⟨now, action⟩ := deed
    cases action with
    | copy =>
      cases names
      exact .copy getElem?_snoc (under.alike alike)
    | deadline =>
      cases names
      exact .deadline getElem?_snoc (under.alike alike)
    | fresh | timeout | cancel => cases names

/-- The token that a deed makes either begins a family or belongs to that of the one token that it is made
of. -/
theorem Accounts.origin (accounts : Accounts history r made)
    (makes : r.makes? deed.now deed.action = some (target, t)) :
    (∀ j, ¬ Linked (history ++ [deed]) history.length j) ∧ t.family = r.families ∧
        r.families < (r.act deed.now deed.action).families ∨
      ∃ i source, Makes history i source ∧ t.family = (made i).family ∧
        ∀ j, Linked (history ++ [deed]) history.length j ↔ j = i := by
  rcases Registered.family_of_makes makes with ⟨none, new⟩ | ⟨source, u, names, found, same⟩
  · left
    constructor
    · intro j linked
      obtain ⟨source, names, _⟩ := linked_snoc.mp linked
      cases none.symm.trans names
    · exact new
  · right
    obtain ⟨i, under, rfl⟩ := accounts.token?_iff.mp found
    refine ⟨i, source, under.makes, same, fun j => ?_⟩
    constructor
    · intro linked
      obtain ⟨source', names', under'⟩ := linked_snoc.mp linked
      cases names.symm.trans names'
      exact under'.unique under
    · rintro rfl
      exact linked_snoc.mpr ⟨source, names, under⟩

theorem Accounts.not_linked (accounts : Accounts history r made)
    (silent : r.makes? deed.now deed.action = none) :
    ¬ Linked (history ++ [deed]) history.length j := by
  intro linked
  obtain ⟨source, names, under⟩ := linked_snoc.mp linked
  cases (Registered.unknown_of_silent silent names).symm.trans (accounts.under under)

theorem Accounts.due_iff (accounts : Accounts history r made)
    (makes : r.makes? deed.now deed.action = some (target, t)) {due : Option Nat} :
    Due (history ++ [deed]) history.length due ↔ due = t.deadline := by
  have alike := alike_append history [deed]
  obtain ⟨now, action⟩ := deed
  constructor
  · intro owed
    cases owed with
    | fresh done | timeout done =>
      cases getElem?_snoc.symm.trans done
      cases makes
      rfl
    | copy done under owed =>
      cases getElem?_snoc.symm.trans done
      have before := under.alike alike.symm
      have copied := makes.symm.trans (congrArg (Option.map fun t => (_, t)) (accounts.under before))
      cases copied
      exact (accounts.due before.makes).mp (owed.alike alike.symm before.early)
    | deadline done =>
      cases getElem?_snoc.symm.trans done
      obtain ⟨u, _, same⟩ := Option.map_eq_some_iff.mp makes
      cases same
      rfl
  · rintro rfl
    cases action with
    | fresh =>
      cases makes
      exact .fresh getElem?_snoc
    | timeout =>
      cases makes
      exact .timeout getElem?_snoc
    | copy source =>
      obtain ⟨u, found, same⟩ := Option.map_eq_some_iff.mp makes
      cases same
      obtain ⟨i, under, rfl⟩ := accounts.token?_iff.mp found
      have owed := (accounts.due under.makes).mpr rfl
      exact .copy getElem?_snoc (under.alike alike) (owed.alike alike under.early)
    | deadline source =>
      obtain ⟨u, _, same⟩ := Option.map_eq_some_iff.mp makes
      cases same
      exact .deadline getElem?_snoc
    | cancel => cases makes

theorem cancels_snoc {k : Nat} : Cancels (history ++ [deed]) k i ↔
    Cancels history k i ∨ k = history.length ∧
      ∃ name, deed.action = .cancel name ∧ Under history history.length name i := by
  have alike := alike_append history [deed]
  constructor
  · intro cancels
    obtain ⟨now, name, done, under⟩ := cancels
    have inside := (List.getElem?_eq_some_iff.mp done).1
    rw [List.length_append, List.length_singleton] at inside
    rcases Nat.lt_succ_iff_lt_or_eq.mp inside with early | rfl
    · exact .inl (Cancels.alike alike.symm early ⟨now, name, done, under⟩)
    · cases getElem?_snoc.symm.trans done
      exact .inr ⟨rfl, name, rfl, under.alike alike.symm⟩
  · rintro (cancels | ⟨rfl, name, action, under⟩)
    · obtain ⟨_, _, done, _⟩ := id cancels
      exact cancels.alike alike (List.getElem?_eq_some_iff.mp done).1
    · refine ⟨deed.now, name, ?_, under.alike alike⟩
      rw [getElem?_snoc, ← action]

theorem Makes.of_snoc (makes : Makes (history ++ [deed]) i name) :
    i = history.length ∨ i < history.length ∧ Makes history i name := by
  have inside := makes.lt
  rw [List.length_append, List.length_singleton] at inside
  rcases Nat.lt_succ_iff_lt_or_eq.mp inside with early | same
  · exact .inr ⟨early, makes.alike (alike_append history [deed]).symm early⟩
  · exact .inl same

-- After one more deed: the tokens before stay, and the last is the one that the deed makes, if it makes one.
section
variable (accounts : Accounts history r made) {made' : Nat → Token}
  (own : ∀ target t, r.makes? deed.now deed.action = some (target, t) → made' history.length = t)
include accounts own

theorem Accounts.makes_last (makes : Makes (history ++ [deed]) history.length name) :
    r.makes? deed.now deed.action = some (name, made' history.length) := by
  obtain ⟨t, makes⟩ := accounts.makes_iff.mp makes
  rw [own _ _ makes, makes]

theorem Accounts.token?_last (makes : Makes (history ++ [deed]) history.length name) :
    (r.act deed.now deed.action).token? name = some (made' history.length) := by
  rw [Registered.token?_act_of_makes (accounts.makes_last own makes), if_pos rfl]

variable (kept : ∀ i < history.length, made' i = made i)
include kept

theorem Accounts.family_of_linked (linked : Linked (history ++ [deed]) i j) :
    (made' i).family = (made' j).family := by
  obtain ⟨before, inside⟩ := linked.lt
  rw [List.length_append, List.length_singleton] at inside
  rcases Nat.lt_succ_iff_lt_or_eq.mp inside with early | rfl
  · rw [kept i early, kept j (before.trans early)]
    exact accounts.linked (linked.alike (alike_append history [deed]).symm early)
  · rw [kept j before]
    cases makes : r.makes? deed.now deed.action with
    | none => exact absurd linked (accounts.not_linked makes)
    | some pair =>
      rw [own pair.1 pair.2 makes]
      rcases accounts.origin makes with ⟨none, _⟩ | ⟨i, _, _, same, only⟩
      · exact absurd linked (none j)
      · rw [(only j).mp linked, same]

/-- The new token is connected to the token it is made of, and that one to its family. -/
theorem Accounts.related_last {name' : String} (makes : Makes (history ++ [deed]) history.length name)
    (makes' : Makes history j name') (same : (made' history.length).family = (made' j).family) :
    Family (history ++ [deed]) history.length j := by
  rw [kept j makes'.lt] at same
  rcases accounts.origin (accounts.makes_last own makes) with ⟨_, new, _⟩ | ⟨i, _, makes, origin, only⟩
  · exact absurd (new.symm.trans same) (accounts.bounded makes').ne'
  · have related := accounts.related makes makes' (origin.symm.trans same)
    exact .trans _ _ _ (.rel _ _ ((only i).mpr rfl)) (related.append [deed])

theorem Accounts.related_snoc {name' : String} (makes : Makes (history ++ [deed]) i name)
    (makes' : Makes (history ++ [deed]) j name') (same : (made' i).family = (made' j).family) :
    Family (history ++ [deed]) i j := by
  rcases makes.of_snoc with rfl | ⟨early, before⟩
  · rcases makes'.of_snoc with rfl | ⟨_, before'⟩
    · exact .refl _
    · exact accounts.related_last own kept makes before' same
  · rcases makes'.of_snoc with rfl | ⟨early', before'⟩
    · exact .symm _ _ (accounts.related_last own kept makes' before same.symm)
    · rw [kept i early, kept j early'] at same
      exact (accounts.related before before' same).append [deed]

theorem Accounts.bounded_snoc (makes : Makes (history ++ [deed]) i name) :
    (made' i).family < (r.act deed.now deed.action).families := by
  rcases makes.of_snoc with rfl | ⟨early, before⟩
  · rcases accounts.origin (accounts.makes_last own makes) with ⟨_, new, more⟩ | ⟨i, _, makes, same, _⟩
    · rw [new]
      exact more
    · rw [same]
      exact (accounts.bounded makes).trans_le Registered.families_le_act
  · rw [kept i early]
    exact (accounts.bounded before).trans_le Registered.families_le_act

omit own in
theorem Accounts.raised_snoc {family : Nat} : family ∈ (r.act deed.now deed.action).raised ↔
    ∃ k i, Cancels (history ++ [deed]) k i ∧ (made' i).family = family := by
  rw [Registered.mem_raised_act, accounts.raised]
  constructor
  · rintro (⟨k, i, cancels, rfl⟩ | ⟨name, t, action, found, rfl⟩)
    · refine ⟨k, i, cancels_snoc.mpr (.inl cancels), ?_⟩
      obtain ⟨_, _, done, under⟩ := cancels
      rw [kept i (under.early.trans (List.getElem?_eq_some_iff.mp done).1)]
    · obtain ⟨i, under, rfl⟩ := accounts.token?_iff.mp found
      refine ⟨history.length, i, cancels_snoc.mpr (.inr ⟨rfl, name, action, under⟩), ?_⟩
      rw [kept i under.early]
  · rintro ⟨k, i, cancels, rfl⟩
    rcases cancels_snoc.mp cancels with cancels | ⟨rfl, name, action, under⟩
    · left
      refine ⟨k, i, cancels, ?_⟩
      obtain ⟨_, _, done, under⟩ := cancels
      rw [kept i (under.early.trans (List.getElem?_eq_some_iff.mp done).1)]
    · right
      exact ⟨name, made i, action, accounts.under under, congrArg Token.family (kept i under.early)⟩

/-- One more deed is accounted for by one more token, if it makes one. -/
theorem Accounts.snoc : Accounts (history ++ [deed]) (r.act deed.now deed.action) made' := by
  have alike := alike_append history [deed]
  have length : (history ++ [deed]).length = history.length + 1 := by simp
  constructor
  case under =>
    intro name i under
    rw [length] at under
    rcases under_snoc.mp under with ⟨rfl, makes⟩ | ⟨silent, under⟩
    · exact accounts.token?_last own makes
    · rw [accounts.token?_of_silent silent, accounts.under under, kept i under.early]
  case known =>
    intro name t found
    by_cases makes : Makes (history ++ [deed]) history.length name
    · exact ⟨history.length, length ▸ under_snoc.mpr (.inl ⟨rfl, makes⟩)⟩
    · rw [accounts.token?_of_silent makes] at found
      obtain ⟨i, under⟩ := accounts.known found
      exact ⟨i, length ▸ under_snoc.mpr (.inr ⟨makes, under⟩)⟩
  case unknown =>
    intro name i none makes
    by_cases silent : Makes (history ++ [deed]) history.length name
    · rw [accounts.token?_last own silent] at none
      cases none
    · rw [accounts.token?_of_silent silent] at none
      rcases makes.of_snoc with rfl | ⟨_, before⟩
      · exact silent makes
      · exact accounts.unknown none before
  case linked => exact accounts.family_of_linked own kept
  case related => exact accounts.related_snoc own kept
  case bounded => exact accounts.bounded_snoc own kept
  case due =>
    intro i name due makes
    rcases makes.of_snoc with rfl | ⟨early, before⟩
    · exact accounts.due_iff (accounts.makes_last own makes)
    · rw [kept i early, ← accounts.due before]
      exact ⟨.alike alike.symm early, .alike alike early⟩
  case raised => exact accounts.raised_snoc kept

end

end

namespace Registered
variable {history later : List Deed} {name : String} {family : Nat}

theorem after_snoc (history : List Deed) (deed : Deed) :
    after (history ++ [deed]) = (after history).act deed.now deed.action := by
  simp [after]

/-- Every history is accounted for. -/
theorem exists_accounts (history : List Deed) : ∃ made, Accounts history (after history) made := by
  induction history using List.reverseRecOn with
  | nil =>
    have nothing {i : Nat} {name : String} : ¬ Makes [] i name :=
      fun makes => absurd makes.lt (Nat.not_lt_zero i)
    refine ⟨fun _ => { family := 0 }, ?_⟩
    constructor
    case under => exact fun under => absurd under.early (Nat.not_lt_zero _)
    case known => exact fun found => by cases found
    case unknown => exact fun _ => nothing
    case linked => exact fun linked => absurd linked.lt.2 (Nat.not_lt_zero _)
    case related => exact fun makes => absurd makes nothing
    case bounded => exact fun makes => absurd makes nothing
    case due => exact fun makes => absurd makes nothing
    case raised =>
      intro family
      simp [after, Cancels]
  | append_singleton history deed ih =>
    obtain ⟨made, accounts⟩ := ih
    rw [after_snoc]
    cases makes : (after history).makes? deed.now deed.action with
    | none =>
      refine ⟨made, accounts.snoc (fun target t found => ?_) fun _ _ => rfl⟩
      cases makes.symm.trans found
    | some pair =>
      refine ⟨Function.update made history.length pair.2, accounts.snoc (fun target t found => ?_) ?_⟩
      · cases makes.symm.trans found
        exact Function.update_self _ _ _
      · exact fun i early => Function.update_of_ne early.ne _ _

/-- A token stays under its name until another one is put there. -/
theorem token?_append (kept : ∀ k, history.length ≤ k → ¬ Makes (history ++ later) k name) :
    (after (history ++ later)).token? name = (after history).token? name := by
  induction later using List.reverseRecOn with
  | nil => rw [List.append_nil]
  | append_singleton later deed ih =>
    rw [← List.append_assoc] at kept ⊢
    obtain ⟨made, accounts⟩ := exists_accounts (history ++ later)
    rw [after_snoc, accounts.token?_of_silent (kept _ (by simp))]
    apply ih
    intro k late makes
    exact kept k late (makes.alike (alike_append _ [deed]) makes.lt)

/-- A family stays cancelled. -/
theorem raised_append (raised : family ∈ (after history).raised) :
    family ∈ (after (history ++ later)).raised := by
  induction later using List.reverseRecOn with
  | nil => rwa [List.append_nil]
  | append_singleton later deed ih =>
    rw [← List.append_assoc, after_snoc, mem_raised_act]
    exact .inl ih

end Registered

/-- The family of a token is cancelled just if some token that is connected with it was cancelled. -/
theorem Accounts.raised_iff {history : List Deed} {r : Registered} {made : Nat → Token} {i : Nat}
    {name : String} (accounts : Accounts history r made) (makes : Makes history i name) :
    (made i).family ∈ r.raised ↔ Raised history i := by
  have same {i j : Nat} (family : Family history i j) : (made i).family = (made j).family := by
    induction family with
    | rel i j linked => exact accounts.linked linked
    | refl i => rfl
    | symm i j _ ih => exact ih.symm
    | trans i j k _ _ first second => exact first.trans second
  rw [accounts.raised]
  constructor
  · rintro ⟨k, j, cancels, family⟩
    obtain ⟨_, _, _, under⟩ := id cancels
    exact ⟨k, j, cancels, accounts.related makes under.makes family.symm⟩
  · rintro ⟨k, j, cancels, family⟩
    exact ⟨k, j, cancels, (same family).symm⟩

namespace Token
variable {t : Token} {m : Moment}

def Overdue (t : Token) (m : Moment) : Prop := ∃ instant, t.deadline = some instant ∧ instant ≤ m.now

theorem isExpired_iff : t.isExpired m = true ↔ t.Overdue m := by
  rw [isExpired, Overdue]
  cases t.deadline with
  | none => simp
  | some instant => simp

/-- A check fails for a cancelled family, or else for a deadline that has come. -/
theorem check_cases (t : Token) (m : Moment) :
    t.family ∈ m.raised ∧ t.check m = .error (.cancelled "cancelled by caller") ∨
      t.family ∉ m.raised ∧ t.Overdue m ∧ t.check m = .error (.cancelled "deadline exceeded") ∨
      t.family ∉ m.raised ∧ ¬ t.Overdue m ∧ t.check m = .ok () := by
  by_cases raised : t.family ∈ m.raised
  · left
    refine ⟨raised, ?_⟩
    rw [check, ended?, if_pos (List.contains_iff_mem.mpr raised)]
    rfl
  · right
    have calm : ¬ m.raised.contains t.family = true := fun found => raised (List.contains_iff_mem.mp found)
    by_cases overdue : t.Overdue m
    · left
      refine ⟨raised, overdue, ?_⟩
      rw [check, ended?, if_neg calm, if_pos (isExpired_iff.mpr overdue)]
      rfl
    · right
      refine ⟨raised, overdue, ?_⟩
      rw [check, ended?, if_neg calm, if_neg (isExpired_iff.not.mpr overdue)]

theorem check_byCaller_iff :
    t.check m = .error (.cancelled "cancelled by caller") ↔ t.family ∈ m.raised := by
  rcases check_cases t m with ⟨raised, checked⟩ | ⟨calm, _, checked⟩ | ⟨calm, _, checked⟩ <;>
    rw [checked]
  · exact iff_of_true rfl raised
  · exact iff_of_false (by decide) calm
  · exact iff_of_false nofun calm

theorem check_overdue_iff : t.check m = .error (.cancelled "deadline exceeded") ↔
    t.family ∉ m.raised ∧ t.Overdue m := by
  rcases check_cases t m with ⟨raised, checked⟩ | ⟨calm, overdue, checked⟩ | ⟨_, live, checked⟩ <;>
    rw [checked]
  · exact iff_of_false (by decide) fun late => late.1 raised
  · exact iff_of_true rfl ⟨calm, overdue⟩
  · exact iff_of_false nofun fun late => live late.2

theorem check_ok_iff : t.check m = .ok () ↔ t.family ∉ m.raised ∧ ¬ t.Overdue m := by
  rcases check_cases t m with ⟨raised, checked⟩ | ⟨_, overdue, checked⟩ | ⟨calm, live, checked⟩ <;>
    rw [checked]
  · exact iff_of_false nofun fun well => well.1 raised
  · exact iff_of_false nofun fun well => well.2 overdue
  · exact iff_of_true rfl ⟨calm, live⟩

theorem check_error_iff : (∃ f, t.check m = .error f) ↔ t.family ∈ m.raised ∨ t.Overdue m := by
  rcases check_cases t m with ⟨raised, checked⟩ | ⟨_, overdue, checked⟩ | ⟨calm, live, checked⟩ <;>
    rw [checked]
  · exact iff_of_true ⟨_, rfl⟩ (.inl raised)
  · exact iff_of_true ⟨_, rfl⟩ (.inr overdue)
  · exact iff_of_false nofun (not_or.mpr ⟨calm, live⟩)

theorem isCancelled_iff : t.isCancelled m = true ↔ t.family ∈ m.raised ∨ t.Overdue m := by
  rw [isCancelled, Bool.or_eq_true, List.contains_iff_mem, isExpired_iff]

theorem bound_eq (limit : Nat) : t.bound m limit =
    match t.deadline with
    | none => limit
    | some instant => min limit (instant - m.now) := by
  rw [bound, remaining?]
  cases t.deadline with
  | none => rfl
  | some instant => exact Nat.min_comm _ _

end Token

/-- Tokens behave as families over every history. There is a token under a name just if some deed put one
there. It fails its check as cancelled by the caller just if a token that copies and deadlines connect with it
was cancelled, whichever of them came first; else as overdue just if its own deadline has come, which is the
one set last or the one of the token that it is a copy of; and else it passes. It counts as cancelled just if
the check fails; once it fails, it fails at every later instant, whatever else is done, until another token
is put under the name. A time limit is bounded by what is left before the deadline. And a deadline for a copy
changes neither the tokens under other names nor what was cancelled. -/
theorem families_over_history (history : List Deed) (now : Nat) :
    let r := Registered.after history
    (∀ name, r.token? name = none ↔ ∀ i, ¬ Makes history i name) ∧
    (∀ name t, r.token? name = some t → ∃ i due,
      Under history history.length name i ∧ (∀ due', Due history i due' ↔ due' = due) ∧
      (t.check (r.moment now) = .error (.cancelled "cancelled by caller") ↔ Raised history i) ∧
      (t.check (r.moment now) = .error (.cancelled "deadline exceeded") ↔
        ¬ Raised history i ∧ ∃ instant, due = some instant ∧ instant ≤ now) ∧
      (t.check (r.moment now) = .ok () ↔
        ¬ Raised history i ∧ ∀ instant, due = some instant → now < instant) ∧
      (t.isCancelled (r.moment now) = true ↔ ∃ f, t.check (r.moment now) = .error f) ∧
      (∀ later now', (∀ k, history.length ≤ k → ¬ Makes (history ++ later) k name) → now ≤ now' →
        (∃ f, t.check (r.moment now) = .error f) →
        (Registered.after (history ++ later)).token? name = some t ∧
          ∃ f, t.check ((Registered.after (history ++ later)).moment now') = .error f) ∧
      ∀ limit,
        t.remaining? (r.moment now) = due.map (· - now) ∧
        (due = none → t.bound (r.moment now) limit = limit) ∧
        ∀ instant, due = some instant → t.bound (r.moment now) limit = min limit (instant - now)) ∧
    ∀ source target instant moment name, name ≠ target →
      let r' := Registered.after (history ++ [⟨moment, .deadline source target instant⟩])
      r'.token? name = r.token? name ∧ r'.moment now = r.moment now := by
  intro r
  obtain ⟨made, accounts⟩ := Registered.exists_accounts history
  refine ⟨fun name => ?_, fun name t found => ?_, fun source target instant moment name other => ?_⟩
  · constructor
    · intro none i
      exact accounts.unknown none
    · intro never
      by_contra found
      obtain ⟨t, found⟩ := Option.ne_none_iff_exists'.mp found
      obtain ⟨i, under⟩ := accounts.known found
      exact never i under.makes
  · obtain ⟨i, under, rfl⟩ := accounts.token?_iff.mp found
    have raised : (made i).family ∈ (r.moment now).raised ↔ Raised history i :=
      accounts.raised_iff under.makes
    refine ⟨i, (made i).deadline, under, fun due => accounts.due under.makes, ?_, ?_, ?_, ?_, ?_, ?_⟩
    · rw [Token.check_byCaller_iff, raised]
    · rw [Token.check_overdue_iff, raised]
      exact Iff.rfl
    · rw [Token.check_ok_iff, raised]
      simp [Token.Overdue, Registered.moment]
    · rw [Token.isCancelled_iff, Token.check_error_iff]
    · intro later now' kept passes failed
      constructor
      · rw [Registered.token?_append kept]
        exact found
      · rw [Token.check_error_iff] at failed ⊢
        rcases failed with raised | ⟨instant, due, come⟩
        · exact .inl (Registered.raised_append raised)
        · exact .inr ⟨instant, due, come.trans passes⟩
    · intro limit
      rw [Token.bound_eq]
      refine ⟨rfl, fun none => ?_, fun instant due => ?_⟩
      · rw [none]
      · rw [due]
        rfl
  · intro r'
    have after : r' = r.act moment (.deadline source target instant) := Registered.after_snoc history _
    have silent : ¬ Makes (history ++ [⟨moment, .deadline source target instant⟩]) history.length name := by
      intro makes
      obtain ⟨t, makes⟩ := accounts.makes_iff.mp makes
      obtain ⟨u, _, same⟩ := Option.map_eq_some_iff.mp makes
      cases same
      exact other rfl
    constructor
    · rw [after]
      exact accounts.token?_of_silent silent
    · rw [after, Registered.act]
      cases r.token? source <;> rfl

/-- A copy that is made after the cancellation of another one is cancelled too. -/
example :
    let r := Registered.after [⟨0, .fresh "a"⟩, ⟨1, .copy "a" "b"⟩, ⟨2, .cancel "b"⟩, ⟨3, .copy "a" "c"⟩]
    (r.token? "c").map (·.check (r.moment 4)) = some (.error (.cancelled "cancelled by caller")) := by
  decide

end Directives.Cancel
