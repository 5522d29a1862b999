import Mathlib
import Directives.Decoder

/-! Octets have one written form. What is written for them is read as them, and nothing else is but for
the blanks around it: the reader refuses a text just if it has one of a few flaws. -/
namespace Directives.Base64

/-! Symbols and their numbers. -/

theorem value?_symbol {n : Nat} (small : n < 64) : value? (symbol n) = some n := by
  have every : ∀ n < 64, value? (symbol n) = some n := by decide
  exact every n small

theorem symbol_of_value? {s : UInt8} {n : Nat} (found : value? s = some n) : n < 64 ∧ symbol n = s := by
  have every : ∀ k < 256, (value? (UInt8.ofNat k)).all
      fun n => n < 64 && symbol n == UInt8.ofNat k := by decide +kernel
  have here := every s.toNat s.toNat_lt
  rw [UInt8.ofNat_toNat, found] at here
  simpa using here

theorem symbol_ne_pad {n : Nat} (small : n < 64) : symbol n ≠ pad := by
  intro same
  have found := value?_symbol small
  rw [same] at found
  cases found

theorem value_eq_ok_iff {offset n : Nat} {s : UInt8} : value offset s = .ok n ↔ n < 64 ∧ s = symbol n := by
  constructor
  · intro found
    cases known : value? s with
    | none => simp [value, known] at found
    | some m =>
      obtain rfl : m = n := by simpa [value, known] using found
      obtain ⟨small, same⟩ := symbol_of_value? known
      exact ⟨small, same.symm⟩
  · rintro ⟨small, rfl⟩
    rw [value, value?_symbol small]

/-! Octets and symbols in groups. -/

/-- How octets and their symbols go together, three octets and four symbols at a time. The last group
may be shorter, and has then no bits set beyond the last octet. -/
inductive Groups : List UInt8 → List UInt8 → Prop
  | none : Groups [] []
  | one {a b : Nat} : a < 64 → b < 64 → b % 16 = 0 →
    Groups [.ofNat (a * 4 + b / 16)] [symbol a, symbol b, pad, pad]
  | two {a b c : Nat} : a < 64 → b < 64 → c < 64 → c % 4 = 0 →
    Groups [.ofNat (a * 4 + b / 16), .ofNat (b % 16 * 16 + c / 4)] [symbol a, symbol b, symbol c, pad]
  | three {a b c d : Nat} {octets text : List UInt8} : a < 64 → b < 64 → c < 64 → d < 64 →
    Groups octets text →
    Groups (.ofNat (a * 4 + b / 16) :: .ofNat (b % 16 * 16 + c / 4) :: .ofNat (c % 4 * 64 + d) :: octets)
      (symbol a :: symbol b :: symbol c :: symbol d :: text)

theorem toNat_ofNat {n : Nat} (small : n < 256) : (UInt8.ofNat n).toNat = n := by
  simpa using Nat.mod_eq_of_lt small

theorem ofNat_eq {n : Nat} {x : UInt8} (same : n = x.toNat) : UInt8.ofNat n = x := by
  rw [same, UInt8.ofNat_toNat]

theorem Groups.written {octets text : List UInt8} (groups : Groups octets text) : text = encode octets := by
  induction groups with
  | none => rfl
  | @one a b smallA smallB trailing =>
    have x := toNat_ofNat (show a * 4 + b / 16 < 256 by omega)
    have first : (a * 4 + b / 16) * 16 / 64 = a := by omega
    have second : (a * 4 + b / 16) * 16 % 64 = b := by omega
    simp only [encode, x, first, second]
  | @two a b c smallA smallB smallC trailing =>
    have x := toNat_ofNat (show a * 4 + b / 16 < 256 by omega)
    have y := toNat_ofNat (show b % 16 * 16 + c / 4 < 256 by omega)
    simp only [encode, x, y]
    have first : ((a * 4 + b / 16) * 256 + (b % 16 * 16 + c / 4)) * 4 / 4096 = a := by omega
    have second : ((a * 4 + b / 16) * 256 + (b % 16 * 16 + c / 4)) * 4 / 64 % 64 = b := by omega
    have third : ((a * 4 + b / 16) * 256 + (b % 16 * 16 + c / 4)) * 4 % 64 = c := by omega
    rw [first, second, third]
  | @three a b c d octets text smallA smallB smallC smallD _ ih =>
    have x := toNat_ofNat (show a * 4 + b / 16 < 256 by omega)
    have y := toNat_ofNat (show b % 16 * 16 + c / 4 < 256 by omega)
    have z := toNat_ofNat (show c % 4 * 64 + d < 256 by omega)
    have number : ((a * 4 + b / 16) * 256 + (b % 16 * 16 + c / 4)) * 256 + (c % 4 * 64 + d) =
        ((a * 64 + b) * 64 + c) * 64 + d := by omega
    simp only [encode, x, y, z, number, ih]
    have first : (((a * 64 + b) * 64 + c) * 64 + d) / 262144 = a := by omega
    have second : (((a * 64 + b) * 64 + c) * 64 + d) / 4096 % 64 = b := by omega
    have third : (((a * 64 + b) * 64 + c) * 64 + d) / 64 % 64 = c := by omega
    have fourth : (((a * 64 + b) * 64 + c) * 64 + d) % 64 = d := by omega
    rw [first, second, third, fourth]

theorem groups_encode (octets : List UInt8) : Groups octets (encode octets) := by
  fun_induction encode octets with
  | case1 x y z rest n ih =>
    have smallX := x.toNat_lt
    have smallY := y.toNat_lt
    have smallZ := z.toNat_lt
    have groups := Groups.three (a := n / 262144) (b := n / 4096 % 64) (c := n / 64 % 64) (d := n % 64)
      (by omega) (by omega) (by omega) (by omega) ih
    rwa [ofNat_eq (x := x) (by omega), ofNat_eq (x := y) (by omega), ofNat_eq (x := z) (by omega)] at groups
  | case2 x y n =>
    have smallX := x.toNat_lt
    have smallY := y.toNat_lt
    have groups := Groups.two (a := n / 4096) (b := n / 64 % 64) (c := n % 64)
      (by omega) (by omega) (by omega) (by omega)
    rwa [ofNat_eq (x := x) (by omega), ofNat_eq (x := y) (by omega)] at groups
  | case3 x n =>
    have smallX := x.toNat_lt
    have groups := Groups.one (a := n / 64) (b := n % 64) (by omega) (by omega) (by omega)
    rwa [ofNat_eq (x := x) (by omega)] at groups
  | case4 => exact Groups.none

/-- Octets go together with the one text that is written for them. -/
theorem groups_iff {octets text : List UInt8} : Groups octets text ↔ text = encode octets := by
  constructor
  · exact Groups.written
  · rintro rfl
    exact groups_encode octets

theorem Groups.length_mod {octets text : List UInt8} (groups : Groups octets text) :
    text.length % 4 = 0 := by
  induction groups with
  | none | one | two => simp
  | three _ _ _ _ _ ih =>
    simp only [List.length_cons]
    omega

/-! What the reader accepts. -/

theorem bind_eq_ok_iff {α β : Type} {first : Except Malformed α} {next : α → Except Malformed β} {b : β} :
    (first >>= next) = .ok b ↔ ∃ a, first = .ok a ∧ next a = .ok b := by
  cases first with
  | error problem => simp [bind, Except.bind]
  | ok a => simp [bind, Except.bind]

/-- Behind padding there is only padding. -/
theorem lastGroup_padded {start position first : Nat} {symbols all : List Nat} {pads : Nat}
    {group : List UInt8} (behind : 2 ≤ position) :
    lastGroup start position symbols (some first) group = .ok (all, pads) ↔
      group = List.replicate group.length pad ∧ all = symbols ∧ pads = position + group.length - first := by
  induction group generalizing position with
  | nil => simp [lastGroup, eq_comm]
  | cons s rest ih =>
    rw [lastGroup]
    by_cases padding : s = pad
    · rw [if_pos padding, if_neg (by omega), Option.some_or, ih (by omega)]
      simp only [List.length_cons, List.replicate_succ, List.cons.injEq, padding, true_and]
      rw [show position + 1 + rest.length = position + (rest.length + 1) by omega]
    · rw [if_neg padding]
      simp [List.replicate_succ, padding]

/-- No symbol is a padding mark, so no symbols are left where the padding begins. -/
theorem symbolless_of_pad {more : List Nat} {pads : Nat} {rest : List UInt8} (small : ∀ n ∈ more, n < 64)
    (group : pad :: rest = more.map symbol ++ List.replicate pads pad) :
    more = [] ∧ ∃ fewer, pads = fewer + 1 ∧ rest = List.replicate fewer pad := by
  cases more with
  | nil =>
    cases pads with
    | zero => simp at group
    | succ fewer => exact ⟨rfl, fewer, rfl, (List.cons.inj group).2⟩
  | cons n more =>
    have same : pad = symbol n := (List.cons.inj group).1
    exact absurd same.symm (symbol_ne_pad (small n List.mem_cons_self))

/-- The last group has symbols first, then padding, which does not stand in the first two places. -/
theorem lastGroup_eq_ok_iff {start position : Nat} {symbols all : List Nat} {pads : Nat}
    {group : List UInt8} : lastGroup start position symbols none group = .ok (all, pads) ↔
      ∃ more, all = symbols ++ more ∧ (∀ n ∈ more, n < 64) ∧
        group = more.map symbol ++ List.replicate pads pad ∧ (pads ≠ 0 → 2 ≤ position + more.length) := by
  induction group generalizing position symbols with
  | nil =>
    simp only [lastGroup, Except.ok.injEq, Prod.mk.injEq, List.nil_eq_append_iff, List.map_eq_nil_iff,
      List.replicate_eq_nil_iff]
    constructor
    · rintro ⟨rfl, rfl⟩
      exact ⟨[], by simp⟩
    · rintro ⟨more, rfl, _, ⟨rfl, rfl⟩, _⟩
      simp
  | cons s rest ih =>
    rw [lastGroup]
    by_cases padding : s = pad
    · subst padding
      rw [if_pos rfl]
      by_cases early : position < 2
      · rw [if_pos early]
        constructor
        · intro done
          cases done
        · rintro ⟨more, _, small, group, behind⟩
          obtain ⟨rfl, fewer, rfl, _⟩ := symbolless_of_pad small group
          have late : 2 ≤ position := behind (Nat.succ_ne_zero fewer)
          omega
      · rw [if_neg early, Option.none_or, lastGroup_padded (by omega)]
        constructor
        · rintro ⟨group, rfl, rfl⟩
          have count : position + 1 + rest.length - position = rest.length + 1 := by omega
          refine ⟨[], by simp, by simp, ?_, fun _ => Nat.le_of_not_lt early⟩
          rw [count, List.replicate_succ, ← group]
          rfl
        · rintro ⟨more, rfl, small, group, behind⟩
          obtain ⟨rfl, fewer, rfl, rfl⟩ := symbolless_of_pad small group
          simp
          omega
    · rw [if_neg padding]
      simp only [bind_eq_ok_iff, value_eq_ok_iff, ih]
      constructor
      · rintro ⟨n, ⟨small, rfl⟩, more, rfl, smaller, rfl, behind⟩
        refine ⟨n :: more, by simp, by simpa [small] using smaller, rfl, ?_⟩
        intro marked
        have late := behind marked
        simp only [List.length_cons]
        omega
      · rintro ⟨more, rfl, small, group, behind⟩
        cases more with
        | nil =>
          cases pads with
          | zero => simp at group
          | succ fewer => exact absurd (List.cons.inj group).1 padding
        | cons n more =>
          obtain ⟨rfl, rfl⟩ := List.cons.inj group
          refine ⟨n, ⟨small n List.mem_cons_self, rfl⟩, more, by simp, ?_, rfl, ?_⟩
          · intro m member
            exact small m (List.mem_cons_of_mem n member)
          · intro marked
            have late := behind marked
            simp only [List.length_cons] at late
            omega

/-- The octets of two, three or four symbols. No bits are set beyond the last octet. -/
inductive LastOctets : List Nat → List UInt8 → Prop
  | one {a b : Nat} : b % 16 = 0 → LastOctets [a, b] [.ofNat (a * 4 + b / 16)]
  | two {a b c : Nat} : c % 4 = 0 →
    LastOctets [a, b, c] [.ofNat (a * 4 + b / 16), .ofNat (b % 16 * 16 + c / 4)]
  | three {a b c d : Nat} : LastOctets [a, b, c, d]
      [.ofNat (a * 4 + b / 16), .ofNat (b % 16 * 16 + c / 4), .ofNat (c % 4 * 64 + d)]

theorem decodeLast_of_lastGroup {start pads : Nat} {group octets : List UInt8} {symbols : List Nat}
    (full : group ≠ []) (read : lastGroup start 0 [] none group = .ok (symbols, pads)) :
    decodeLast start group = .ok octets ↔
      (symbols.length + pads) % 4 = 0 ∧ LastOctets symbols octets := by
  rw [decodeLast, read]
  simp only [bind, Except.bind, pure, Except.pure, throw, throwThe, MonadExceptOf.throw,
    List.isEmpty_iff, full, if_false, ne_eq, ite_not]
  constructor
  · intro done
    split at done
    · cases done
    split at done
    · next whole =>
      refine ⟨whole, ?_⟩
      split at done
      · split at done
        · next trailing =>
          cases done
          exact .one trailing
        · cases done
      · split at done
        · next trailing =>
          cases done
          exact .two trailing
        · cases done
      · cases done
        exact .three
      · cases done
    · cases done
  · rintro ⟨whole, last⟩
    have whole : ¬ (symbols.length + pads) % 4 ≠ 0 := not_not.mpr whole
    cases last with
    | one trailing => simpa [trailing] using whole
    | two trailing => simpa [trailing] using whole
    | three => simpa using whole

theorem decodeLast_eq_ok_iff {start : Nat} {group octets : List UInt8} (short : group.length ≤ 4) :
    decodeLast start group = .ok octets ↔ Groups octets group := by
  by_cases full : group = []
  · subst full
    constructor
    · intro done
      cases done
      exact .none
    · intro groups
      cases groups
      rfl
  constructor
  · intro done
    obtain ⟨⟨symbols, pads⟩, read, _⟩ := bind_eq_ok_iff.mp done
    obtain ⟨whole, last⟩ := (decodeLast_of_lastGroup full read).mp done
    obtain ⟨more, rfl, small, rfl, behind⟩ := lastGroup_eq_ok_iff.mp read
    -- In at most four places the padding can only make up one group.
    cases last with
    | one trailing =>
      simp at whole short small
      obtain rfl : pads = 2 := by omega
      exact .one small.1 small.2 trailing
    | two trailing =>
      simp at whole short small
      obtain rfl : pads = 1 := by omega
      exact .two small.1 small.2.1 small.2.2 trailing
    | three =>
      simp at whole short small
      obtain rfl : pads = 0 := by omega
      exact .three small.1 small.2.1 small.2.2.1 small.2.2.2 .none
  · intro groups
    cases groups with
    | none => exact absurd rfl full
    | @one a b smallA smallB trailing =>
      have read : lastGroup start 0 [] none [symbol a, symbol b, pad, pad] = .ok ([a, b], 2) :=
        lastGroup_eq_ok_iff.mpr ⟨[a, b], rfl, by simp [smallA, smallB], rfl, by simp⟩
      exact (decodeLast_of_lastGroup full read).mpr ⟨by simp, .one trailing⟩
    | @two a b c smallA smallB smallC trailing =>
      have read : lastGroup start 0 [] none [symbol a, symbol b, symbol c, pad] = .ok ([a, b, c], 1) :=
        lastGroup_eq_ok_iff.mpr ⟨[a, b, c], rfl, by simp [smallA, smallB, smallC], rfl, by simp⟩
      exact (decodeLast_of_lastGroup full read).mpr ⟨by simp, .two trailing⟩
    | @three a b c d octets text smallA smallB smallC smallD more =>
      have empty : text.length = 0 := by
        simp only [List.length_cons] at short
        omega
      obtain rfl : text = [] := List.length_eq_zero_iff.mp empty
      cases more
      have read : lastGroup start 0 [] none [symbol a, symbol b, symbol c, symbol d] =
          .ok ([a, b, c, d], 0) :=
        lastGroup_eq_ok_iff.mpr ⟨[a, b, c, d], rfl, by simp [smallA, smallB, smallC, smallD], rfl, by simp⟩
      exact (decodeLast_of_lastGroup full read).mpr ⟨by simp, .three⟩

theorem decodeGroups_eq_ok_iff (offset : Nat) {text octets : List UInt8} :
    decodeGroups offset text = .ok octets ↔ Groups octets text := by
  fun_induction decodeGroups offset text generalizing octets with
  | case1 offset s t u v w rest ih =>
    simp only [bind_eq_ok_iff, value_eq_ok_iff, ih]
    constructor
    · rintro ⟨a, ⟨smallA, rfl⟩, b, ⟨smallB, rfl⟩, c, ⟨smallC, rfl⟩, d, ⟨smallD, rfl⟩, more, groups, done⟩
      cases done
      exact .three smallA smallB smallC smallD groups
    · intro groups
      cases groups with
      | @three a b c d more text smallA smallB smallC smallD groups =>
        exact ⟨a, ⟨smallA, rfl⟩, b, ⟨smallB, rfl⟩, c, ⟨smallC, rfl⟩, d, ⟨smallD, rfl⟩, more, groups, rfl⟩
  | case2 offset group short =>
    apply decodeLast_eq_ok_iff
    match group, short with
    | [], _ | [_], _ | [_, _], _ | [_, _, _], _ | [_, _, _, _], _ => simp
    | s :: t :: u :: v :: w :: rest, short => exact absurd rfl (short s t u v w rest)

/-- What is read is just what is written. -/
theorem decode_eq_ok_iff {text octets : List UInt8} : decode text = .ok octets ↔ text = encode octets := by
  rw [← groups_iff, ← decodeGroups_eq_ok_iff 0, decode]
  split
  · split
    · constructor
      · intro done
        cases done
      · intro done
        have even := ((decodeGroups_eq_ok_iff 0).mp done).length_mod
        omega
    · rfl
  · rfl

/-! What a written form looks like. -/

/-- How much padding so many symbols need. -/
def due (count : Nat) : Nat := (4 - count % 4) % 4

/-- Numbers of symbols that make up whole octets, with no bits set beyond the last. -/
structure Formed (digits : List Nat) : Prop where
  small : ∀ n ∈ digits, n < 64
  whole : digits.length % 4 ≠ 1
  trailing : ∀ earlier last, digits = earlier ++ [last] → last % 4 ^ due digits.length = 0

/-- The digits spell the octets: there are as many as it takes, and to the base of sixty-four they are the
number that the octets are to the base of two hundred and fifty-six, moved up to where the last one ends. -/
structure Spells (digits : List Nat) (octets : List UInt8) : Prop where
  formed : Formed digits
  count : digits.length = (4 * octets.length + 2) / 3
  number : ∀ high, digits.foldl (fun n digit => n * 64 + digit) high =
    octets.foldl (fun n octet => n * 256 + octet.toNat) high * 4 ^ due digits.length

def padded (digits : List Nat) : List UInt8 :=
  digits.map symbol ++ List.replicate (due digits.length) pad

theorem due_add_four (count : Nat) : due (count + 4) = due count := by
  rw [due, due, Nat.add_mod_right]

theorem padded_four (a b c d : Nat) (digits : List Nat) : padded (a :: b :: c :: d :: digits) =
    symbol a :: symbol b :: symbol c :: symbol d :: padded digits := by
  simp only [padded, List.length_cons, due_add_four, List.map_cons, List.cons_append]

theorem formed_four {a b c d : Nat} {digits : List Nat} :
    Formed (a :: b :: c :: d :: digits) ↔ a < 64 ∧ b < 64 ∧ c < 64 ∧ d < 64 ∧ Formed digits := by
  constructor
  · intro formed
    have small := formed.small
    simp only [List.forall_mem_cons] at small
    obtain ⟨smallA, smallB, smallC, smallD, small⟩ := small
    refine ⟨smallA, smallB, smallC, smallD, small, ?_, ?_⟩
    · have whole := formed.whole
      simp only [List.length_cons] at whole
      omega
    · rintro earlier last rfl
      have trailing := formed.trailing (a :: b :: c :: d :: earlier) last rfl
      simpa only [List.length_cons, due_add_four] using trailing
  · rintro ⟨smallA, smallB, smallC, smallD, formed⟩
    constructor
    · simp only [List.forall_mem_cons]
      exact ⟨smallA, smallB, smallC, smallD, formed.small⟩
    · have whole := formed.whole
      simp only [List.length_cons]
      omega
    · intro earlier last split
      simp only [List.length_cons, due_add_four]
      cases digits using List.reverseRecOn with
      | nil =>
        have nothing : due ([] : List Nat).length = 0 := rfl
        rw [nothing, Nat.pow_zero, Nat.mod_one]
      | append_singleton digits final =>
        have same : final = last := by simpa [List.getLast?_cons] using congrArg List.getLast? split
        exact same ▸ formed.trailing digits final rfl

theorem groups_of_formed : ∀ digits : List Nat, Formed digits → ∃ octets, Groups octets (padded digits)
  | [], _ => ⟨[], .none⟩
  | [a], formed => absurd rfl formed.whole
  | [a, b], formed => by
    have trailing : b % 16 = 0 := formed.trailing [a] b rfl
    exact ⟨_, .one (formed.small a (by simp)) (formed.small b (by simp)) trailing⟩
  | [a, b, c], formed => by
    have trailing : c % 4 = 0 := formed.trailing [a, b] c rfl
    exact ⟨_, .two (formed.small a (by simp)) (formed.small b (by simp)) (formed.small c (by simp)) trailing⟩
  | a :: b :: c :: d :: digits, formed => by
    obtain ⟨smallA, smallB, smallC, smallD, formed⟩ := formed_four.mp formed
    obtain ⟨octets, groups⟩ := groups_of_formed digits formed
    rw [padded_four]
    exact ⟨_, .three smallA smallB smallC smallD groups⟩

theorem Groups.spelled {octets text : List UInt8} (groups : Groups octets text) :
    ∃ digits, Spells digits octets ∧ text = padded digits := by
  induction groups with
  | none => exact ⟨[], ⟨⟨by simp, by simp, by simp⟩, by simp, by simp [due]⟩, rfl⟩
  | @one a b smallA smallB trailing =>
    have x := toNat_ofNat (show a * 4 + b / 16 < 256 by omega)
    refine ⟨[a, b], ⟨⟨by simp [smallA, smallB], by simp, ?_⟩, by simp, ?_⟩, rfl⟩
    · intro earlier last split
      have same : b = last := by simpa using congrArg List.getLast? split
      exact same ▸ trailing
    · intro high
      have shift : 4 ^ due [a, b].length = 16 := rfl
      simp only [List.foldl_cons, List.foldl_nil, x, shift]
      omega
  | @two a b c smallA smallB smallC trailing =>
    have x := toNat_ofNat (show a * 4 + b / 16 < 256 by omega)
    have y := toNat_ofNat (show b % 16 * 16 + c / 4 < 256 by omega)
    refine ⟨[a, b, c], ⟨⟨by simp [smallA, smallB, smallC], by simp, ?_⟩, by simp, ?_⟩, rfl⟩
    · intro earlier last split
      have same : c = last := by simpa using congrArg List.getLast? split
      exact same ▸ trailing
    · intro high
      have shift : 4 ^ due [a, b, c].length = 4 := rfl
      simp only [List.foldl_cons, List.foldl_nil, x, y, shift]
      omega
  | @three a b c d octets text smallA smallB smallC smallD _ ih =>
    have x := toNat_ofNat (show a * 4 + b / 16 < 256 by omega)
    have y := toNat_ofNat (show b % 16 * 16 + c / 4 < 256 by omega)
    have z := toNat_ofNat (show c % 4 * 64 + d < 256 by omega)
    obtain ⟨digits, spells, rfl⟩ := ih
    refine ⟨a :: b :: c :: d :: digits, ⟨formed_four.mpr ⟨smallA, smallB, smallC, smallD, spells.formed⟩,
      ?_, ?_⟩, (padded_four a b c d digits).symm⟩
    · have count := spells.count
      simp only [List.length_cons]
      omega
    · intro high
      have same : (((high * 64 + a) * 64 + b) * 64 + c) * 64 + d =
          ((high * 256 + (a * 4 + b / 16)) * 256 + (b % 16 * 16 + c / 4)) * 256 + (c % 4 * 64 + d) := by omega
      simp only [List.foldl_cons, x, y, z, List.length_cons, due_add_four, same]
      exact spells.number _

/-! Written forms as text. -/

def letter (s : UInt8) : Char := Char.ofNat s.toNat

def alphabet : List Char := "ABCDEFGHIJKLMNOPQRSTUVWXYZabcdefghijklmnopqrstuvwxyz0123456789+/".toList

theorem alphabet_symbol {n : Nat} (small : n < 64) :
    letter (symbol n) ∈ alphabet ∧ alphabet.idxOf (letter (symbol n)) = n := by
  have every : ∀ n < 64, letter (symbol n) ∈ alphabet ∧ alphabet.idxOf (letter (symbol n)) = n := by
    decide +kernel
  exact every n small

theorem getD_alphabet {n : Nat} (small : n < 64) : letter (symbol n) = alphabet.getD n '=' := by
  have every : ∀ n < 64, letter (symbol n) = alphabet.getD n '=' := by decide +kernel
  exact every n small

theorem symbol_idxOf {c : Char} (member : c ∈ alphabet) :
    alphabet.idxOf c < 64 ∧ letter (symbol (alphabet.idxOf c)) = c := by
  have count : alphabet.length = 64 := by decide +kernel
  have inside : alphabet.idxOf c < alphabet.length := List.idxOf_lt_length_of_mem member
  have small : alphabet.idxOf c < 64 := count ▸ inside
  refine ⟨small, ?_⟩
  rw [getD_alphabet small, List.getD_eq_getElem?_getD, List.getElem?_eq_getElem inside, Option.getD_some,
    List.getElem_idxOf]

theorem not_mark_of_mem {c : Char} (member : c ∈ alphabet) : c ≠ '=' ∧ Text.isBlank c = false := by
  have every : ∀ n < 64, letter (symbol n) ≠ '=' ∧ Text.isBlank (letter (symbol n)) = false := by
    decide +kernel
  obtain ⟨small, same⟩ := symbol_idxOf member
  rw [← same]
  exact every _ small

theorem letters_padded (digits : List Nat) : (padded digits).map letter =
    digits.map (fun n => letter (symbol n)) ++ List.replicate (due digits.length) '=' := by
  have mark : letter pad = '=' := by decide
  simp [padded, mark, Function.comp_def]

theorem toList_toText (octets : List UInt8) : (toText octets).toList = (encode octets).map letter :=
  String.toList_ofList

/-- The octets of a written form, as a text, are the octets of which it is made. -/
theorem toUtf8_toText (octets : List UInt8) : Text.toUtf8 (toText octets) = encode octets := by
  have every : ∀ n < 64, String.utf8EncodeChar (letter (symbol n)) = [symbol n] := by decide +kernel
  have mark : String.utf8EncodeChar (letter pad) = [pad] := by decide
  obtain ⟨digits, spells, written⟩ := (groups_encode octets).spelled
  have single : ∀ s ∈ encode octets, String.utf8EncodeChar (letter s) = [s] := by
    intro s member
    rw [written, padded, List.mem_append, List.mem_map] at member
    rcases member with ⟨n, digit, rfl⟩ | padding
    · exact every n (spells.formed.small n digit)
    · rw [List.eq_of_mem_replicate padding, mark]
  rw [Text.toUtf8_eq, toList_toText, List.flatMap_map, List.flatMap, List.map_congr_left single]
  exact List.flatMap_singleton' (encode octets)

theorem toUtf8_inj {a b : String} : Text.toUtf8 a = Text.toUtf8 b ↔ a = b := by
  constructor
  · intro same
    have read := congrArg Text.ofUtf8? same
    rw [Text.ofUtf8?_toUtf8, Text.ofUtf8?_toUtf8] at read
    exact Option.some.inj read
  · rintro rfl
    rfl

def trimmed (text : String) : String := String.ofList (Text.trimBlank text.toList)

/-- A text is read as octets just if it is what is written for them, but for the blanks around it. -/
theorem ofText_eq_ok_iff {text : String} {octets : List UInt8} :
    ofText text = .ok octets ↔ trimmed text = toText octets := by
  rw [ofText, decode_eq_ok_iff, ← toUtf8_toText, toUtf8_inj, trimmed]

theorem not_isBlank_of_mem {octets : List UInt8} {c : Char} (member : c ∈ (toText octets).toList) :
    Text.isBlank c = false := by
  obtain ⟨digits, spells, written⟩ := (groups_encode octets).spelled
  rw [toList_toText, written, letters_padded, List.mem_append, List.mem_map] at member
  rcases member with ⟨n, digit, rfl⟩ | padding
  · exact (not_mark_of_mem (alphabet_symbol (spells.formed.small n digit)).1).2
  · rw [List.eq_of_mem_replicate padding]
    decide

theorem trimmed_toText (octets : List UInt8) : trimmed (toText octets) = toText octets := by
  have kept (text : List Char) (plain : ∀ c ∈ text, Text.isBlank c = false) :
      text.dropWhile Text.isBlank = text := by
    cases text with
    | nil => rfl
    | cons c rest => rw [List.dropWhile_cons_of_neg (by simp [plain c])]
  have plain : ∀ c ∈ (toText octets).toList, Text.isBlank c = false := fun c => not_isBlank_of_mem
  rw [trimmed, Text.trimBlank, kept _ plain, kept _ (by simpa using plain), List.reverse_reverse,
    String.ofList_toList]

/-! What is refused. -/

/-- The characters before the first padding mark. -/
def front (text : List Char) : List Char := text.takeWhile (· ≠ '=')

/-- The characters from the first padding mark on. -/
def rear (text : List Char) : List Char := text.dropWhile (· ≠ '=')

/-- What can be wrong with a text that is to encode octets. -/
inductive Flaw (text : List Char) : Prop
  /-- A character that is neither a symbol nor the padding mark. -/
  | stranger {c : Char} : c ∈ text → c ∉ alphabet → c ≠ '=' → Flaw text
  | blank {c : Char} : c ∈ text → Text.isBlank c = true → Flaw text
  /-- Something else behind a padding mark. -/
  | inside {c : Char} : c ∈ rear text → c ≠ '=' → Flaw text
  /-- A symbol alone in the last group, which has too few bits for an octet. -/
  | alone : (front text).length % 4 = 1 → Flaw text
  | unpadded : (rear text).length < due (front text).length → Flaw text
  | overpadded : due (front text).length < (rear text).length → Flaw text
  /-- Bits that are set beyond the last octet. -/
  | trailing {earlier : List Char} {last : Char} : front text = earlier ++ [last] →
    alphabet.idxOf last % 4 ^ due (front text).length ≠ 0 → Flaw text

theorem front_padded {digits : List Nat} (small : ∀ n ∈ digits, n < 64) :
    front ((padded digits).map letter) = digits.map (fun n => letter (symbol n)) ∧
      rear ((padded digits).map letter) = List.replicate (due digits.length) '=' := by
  have symbols : ∀ c ∈ digits.map (fun n => letter (symbol n)), decide (c ≠ '=') = true := by
    intro c member
    obtain ⟨n, digit, rfl⟩ := List.mem_map.mp member
    exact decide_eq_true (not_mark_of_mem (alphabet_symbol (small n digit)).1).1
  have marks (count : Nat) : (List.replicate count '=').takeWhile (fun c => decide (c ≠ '=')) = [] ∧
      (List.replicate count '=').dropWhile (fun c => decide (c ≠ '=')) = List.replicate count '=' := by
    cases count <;> simp [List.replicate_succ]
  rw [letters_padded, front, rear, List.takeWhile_append_of_pos symbols, List.dropWhile_append_of_pos symbols,
    (marks _).1, (marks _).2, List.append_nil]
  exact ⟨rfl, rfl⟩

theorem not_flaw_padded {digits : List Nat} (formed : Formed digits) : ¬ Flaw ((padded digits).map letter) := by
  intro flaw
  obtain ⟨fronts, rears⟩ := front_padded formed.small
  have known : ∀ c ∈ (padded digits).map letter, c ∈ alphabet ∨ c = '=' := by
    intro c member
    rw [letters_padded, List.mem_append, List.mem_map] at member
    rcases member with ⟨n, digit, rfl⟩ | padding
    · exact .inl (alphabet_symbol (formed.small n digit)).1
    · exact .inr (List.eq_of_mem_replicate padding)
  cases flaw with
  | stranger member strange other =>
    rcases known _ member with symbol | mark
    · exact strange symbol
    · exact other mark
  | blank member blank =>
    rcases known _ member with symbol | rfl
    · rw [(not_mark_of_mem symbol).2] at blank
      cases blank
    · exact absurd blank (by decide)
  | inside member other =>
    rw [rears] at member
    exact other (List.eq_of_mem_replicate member)
  | alone single =>
    rw [fronts, List.length_map] at single
    exact formed.whole single
  | unpadded less =>
    rw [fronts, rears, List.length_map, List.length_replicate] at less
    exact Nat.lt_irrefl _ less
  | overpadded more =>
    rw [fronts, rears, List.length_map, List.length_replicate] at more
    exact Nat.lt_irrefl _ more
  | trailing split set =>
    rw [fronts] at split set
    obtain ⟨earlier, ends, rfl, rfl, final⟩ := List.map_eq_append_iff.mp split
    obtain ⟨last, rfl, rfl⟩ := List.map_eq_singleton_iff.mp final
    rw [(alphabet_symbol (formed.small last (by simp))).2, List.length_map] at set
    exact set (formed.trailing earlier last rfl)

/-- A text without flaws is made up of symbols and the padding they need. -/
theorem exists_formed {text : List Char} (sound : ¬ Flaw text) :
    ∃ digits, Formed digits ∧ text = (padded digits).map letter := by
  have symbols : ∀ c ∈ front text, c ∈ alphabet := by
    intro c member
    by_contra strange
    have other : c ≠ '=' := by simpa using List.mem_takeWhile_imp member
    exact sound (.stranger ((List.takeWhile_prefix _).subset member) strange other)
  have marks : rear text = List.replicate (rear text).length '=' := by
    apply List.eq_replicate_of_mem
    intro c member
    by_contra other
    exact sound (.inside member other)
  have enough : (rear text).length = due (front text).length := by
    apply Nat.le_antisymm
    · exact Nat.le_of_not_lt fun more => sound (.overpadded more)
    · exact Nat.le_of_not_lt fun less => sound (.unpadded less)
  have letters : (front text).map (fun c => letter (symbol (alphabet.idxOf c))) = front text := by
    conv => rhs; rw [← List.map_id (front text)]
    apply List.map_congr_left
    intro c member
    exact (symbol_idxOf (symbols c member)).2
  refine ⟨(front text).map alphabet.idxOf, ⟨?_, ?_, ?_⟩, ?_⟩
  · intro n member
    obtain ⟨c, symbol, rfl⟩ := List.mem_map.mp member
    exact (symbol_idxOf (symbols c symbol)).1
  · intro single
    rw [List.length_map] at single
    exact sound (.alone single)
  · intro earlier last split
    rw [List.length_map]
    by_contra set
    obtain ⟨earlier, ends, whole, rfl, final⟩ := List.map_eq_append_iff.mp split
    obtain ⟨last, rfl, rfl⟩ := List.map_eq_singleton_iff.mp final
    exact sound (.trailing whole set)
  · rw [letters_padded, List.length_map, List.map_map, ← enough, ← marks]
    conv => lhs; rw [← List.takeWhile_append_dropWhile (p := (· ≠ '=')) (l := text)]
    exact congrArg (· ++ rear text) letters.symm

/-- A text is refused just if it has a flaw. -/
theorem refused_iff {text : String} :
    (∃ problem, ofText text = .error problem) ↔ Flaw (trimmed text).toList := by
  constructor
  · rintro ⟨problem, refused⟩
    by_contra sound
    obtain ⟨digits, formed, written⟩ := exists_formed sound
    obtain ⟨octets, groups⟩ := groups_of_formed digits formed
    have read : ofText text = .ok octets := by
      rw [ofText_eq_ok_iff, ← String.toList_inj, toList_toText, written, groups.written]
    cases refused.symm.trans read
  · intro flaw
    cases read : ofText text with
    | error problem => exact ⟨problem, rfl⟩
    | ok octets =>
      obtain ⟨digits, spells, written⟩ := (groups_encode octets).spelled
      rw [ofText_eq_ok_iff.mp read, toList_toText, written] at flaw
      exact absurd flaw (not_flaw_padded spells.formed)

end Directives.Base64

namespace Directives.Decoder
open Base64

theorem octets_text (text : String) : octets (.text text) = (ofText text).mapError .base64 := by
  cases read : ofText text <;> simp [octets, Decoder.text, read, bind, Except.bind, pure, Except.pure, throw,
    throwThe, MonadExceptOf.throw, Except.mapError]

theorem exists_text_of_octets {d : Document} {bytes : List UInt8} (done : octets d = .ok bytes) :
    ∃ text, d = .text text := by
  cases d with
  | text text => exact ⟨text, rfl⟩
  | _ => cases done

theorem octets_text_eq_ok_iff {text : String} {bytes : List UInt8} :
    octets (.text text) = .ok bytes ↔ trimmed text = toText bytes := by
  rw [← ofText_eq_ok_iff, octets_text]
  cases ofText text <;> simp [Except.mapError]

/-- Octets and their written forms are one to one. What is written for octets is read as them; it has the
symbols that spell them, and the padding that these need. Only texts are read as octets, and only what is
written for the octets, but for the blanks around it; so texts that are read as the same octets are the
same without these. Every other text is refused, and those are the texts with a flaw: a character, blank
or not, that is neither a symbol nor the padding mark; something behind padding; a symbol too many; too
little padding, or too much; or bits that are set beyond the last octet. -/
theorem octets_one_form :
    (∀ bytes, octets (.text (toText bytes)) = .ok bytes) ∧
    (∀ bytes, ∃ digits, Spells digits bytes ∧ (toText bytes).toList =
      digits.map (fun n => alphabet.getD n '=') ++ List.replicate (due digits.length) '=') ∧
    (∀ d bytes, octets d = .ok bytes → ∃ text, d = .text text ∧ toText bytes = trimmed text) ∧
    (∀ text text' bytes, octets (.text text) = .ok bytes → octets (.text text') = .ok bytes →
      trimmed text = trimmed text') ∧
    ∀ text, (∃ problem, octets (.text text) = .error (.base64 problem)) ↔ Flaw (trimmed text).toList := by
  refine ⟨?_, ?_, ?_, ?_, ?_⟩
  · intro bytes
    exact octets_text_eq_ok_iff.mpr (trimmed_toText bytes)
  · intro bytes
    obtain ⟨digits, spells, written⟩ := (groups_encode bytes).spelled
    refine ⟨digits, spells, ?_⟩
    rw [toList_toText, written, letters_padded]
    congr 1
    apply List.map_congr_left
    intro n digit
    exact getD_alphabet (spells.formed.small n digit)
  · intro d bytes done
    obtain ⟨text, rfl⟩ := exists_text_of_octets done
    exact ⟨text, rfl, (octets_text_eq_ok_iff.mp done).symm⟩
  · intro text text' bytes done done'
    rw [octets_text_eq_ok_iff.mp done, octets_text_eq_ok_iff.mp done']
  · intro text
    rw [← refused_iff, octets_text]
    cases ofText text <;> simp [Except.mapError]

end Directives.Decoder
