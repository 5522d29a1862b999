/-! Octets as text. A sequence of octets that no character has is refused by the strict reading
and shown as U+FFFD by the lenient one, one mark for each longest beginning of a character. -/
namespace Directives.Text

/-- What the octets at the head of a sequence are. -/
inductive Octets
  /-- A whole character of the given width. -/
  | character (c : Char) (width : Nat)
  /-- The beginning of no character; `width` octets go together. -/
  | malformed (width : Nat)

private def isTail (b : UInt8) : Bool := 0x80 ≤ b && b ≤ 0xBF

private def low6 (b : UInt8) : Nat := b.toNat % 64

/-- The range the second octet must lie in, by the first. -/
def secondRange (first : UInt8) : UInt8 × UInt8 :=
  if first == 0xE0 then (0xA0, 0xBF)
  else if first == 0xED then (0x80, 0x9F)
  else if first == 0xF0 then (0x90, 0xBF)
  else if first == 0xF4 then (0x80, 0x8F)
  else (0x80, 0xBF)

def readOctets (first : UInt8) (rest : List UInt8) : Octets :=
  if first < 0x80 then .character (Char.ofNat first.toNat) 1
  else if 0xC2 ≤ first && first ≤ 0xDF then
    match rest with
    | b :: _ =>
      if isTail b then .character (Char.ofNat (first.toNat % 32 * 64 + low6 b)) 2 else .malformed 1
    | [] => .malformed 1
  else if 0xE0 ≤ first && first ≤ 0xEF then
    match rest with
    | b :: more =>
      if (secondRange first).1 ≤ b && b ≤ (secondRange first).2 then
        match more with
        | d :: _ =>
          if isTail d then
            .character (Char.ofNat ((first.toNat % 16 * 64 + low6 b) * 64 + low6 d)) 3
          else .malformed 2
        | [] => .malformed 2
      else .malformed 1
    | [] => .malformed 1
  else if 0xF0 ≤ first && first ≤ 0xF4 then
    match rest with
    | b :: more =>
      if (secondRange first).1 ≤ b && b ≤ (secondRange first).2 then
        match more with
        | d :: more =>
          if isTail d then
            match more with
            | e :: _ =>
              if isTail e then
                .character (Char.ofNat
                  (((first.toNat % 8 * 64 + low6 b) * 64 + low6 d) * 64 + low6 e)) 4
              else .malformed 3
            | [] => .malformed 3
          else .malformed 2
        | [] => .malformed 2
      else .malformed 1
    | [] => .malformed 1
  else .malformed 1

/-- Reads octets as text; each malformed stretch goes through `onMalformed`. -/
def readUtf8 (onMalformed : Option Char) : Nat → List UInt8 → Option (List Char)
  | _, [] => some []
  | 0, first :: rest =>
    match readOctets first rest, onMalformed with
    | .character c width, _ => (readUtf8 onMalformed (width - 1) rest).map (c :: ·)
    | .malformed width, some mark => (readUtf8 onMalformed (width - 1) rest).map (mark :: ·)
    | .malformed _, none => none
  | skip + 1, _ :: rest => readUtf8 onMalformed skip rest

def ofUtf8? (octets : List UInt8) : Option String :=
  (readUtf8 none 0 octets).map String.ofList

/-- The text that the octets encode, with U+FFFD for what encodes nothing. -/
def ofUtf8Lossy (octets : List UInt8) : String :=
  String.ofList ((readUtf8 (some '\uFFFD') 0 octets).getD [])

def toUtf8 (text : String) : List UInt8 := text.toUTF8.toList

theorem toList_loop (octets : ByteArray) (position : Nat) (read : List UInt8) :
    ByteArray.toList.loop octets position read = read.reverse ++ octets.data.toList.drop position := by
  fun_induction ByteArray.toList.loop octets position read with
  | case1 position read inside ih =>
    have bounded : position < octets.data.toList.length := inside
    have octet : octets.get! position = octets.data.toList[position] := getElem!_pos octets.data _ inside
    rw [ih, List.reverse_cons, List.append_assoc, octet, List.drop_eq_getElem_cons bounded]
    rfl
  | case2 position read outside =>
    have size : octets.size = octets.data.toList.length := rfl
    rw [List.drop_eq_nil_of_le (by omega), List.append_nil]

theorem toUtf8_eq (text : String) : toUtf8 text = text.toList.flatMap String.utf8EncodeChar := by
  have written : text.toUTF8 = text.toList.utf8Encode := String.utf8Encode_toList.symm
  rw [toUtf8, ByteArray.toList, toList_loop, written, List.utf8Encode, List.data_toByteArray]
  rfl

/-- Which octets may stand second. -/
theorem secondRange_iff (first b : UInt8) :
    (secondRange first).1.toNat ≤ b.toNat ∧ b.toNat ≤ (secondRange first).2.toNat ↔
      128 ≤ b.toNat ∧ b.toNat ≤ 191 ∧ (first.toNat = 224 → 160 ≤ b.toNat) ∧
        (first.toNat = 237 → b.toNat ≤ 159) ∧ (first.toNat = 240 → 144 ≤ b.toNat) ∧
        (first.toNat = 244 → b.toNat ≤ 143) := by
  have known (n : UInt8) : (first == n) = true ↔ first.toNat = n.toNat := by
    rw [beq_iff_eq, UInt8.toNat_inj]
  simp only [secondRange, known, UInt8.reduceToNat]
  split
  · simp only [UInt8.reduceToNat]
    omega
  split
  · simp only [UInt8.reduceToNat]
    omega
  split
  · simp only [UInt8.reduceToNat]
    omega
  split
  · simp only [UInt8.reduceToNat]
    omega
  · simp only [UInt8.reduceToNat]
    omega

theorem isTail_iff (b : UInt8) : isTail b = true ↔ 128 ≤ b.toNat ∧ b.toNat ≤ 191 := by
  simp only [isTail, Bool.and_eq_true, decide_eq_true_eq, UInt8.le_iff_toNat_le, UInt8.reduceToNat]

theorem readUtf8_skip (onMalformed : Option Char) (skipped rest : List UInt8) :
    readUtf8 onMalformed skipped.length (skipped ++ rest) = readUtf8 onMalformed 0 rest := by
  induction skipped with
  | nil => rfl
  | cons b skipped ih => exact ih

/-- The octets that a character is written with are read as that character. -/
theorem readOctets_encode (c : Char) (rest : List UInt8) :
    ∃ first more, String.utf8EncodeChar c = first :: more ∧
      readOctets first (more ++ rest) = .character c (more.length + 1) := by
  have valid : c.val.toNat < 0xD800 ∨ 0xDFFF < c.val.toNat ∧ c.val.toNat < 0x110000 := c.valid
  have again : Char.ofNat c.val.toNat = c := Char.ofNat_toNat c
  have octet {n : Nat} (small : n < 256) : (UInt8.ofNat n).toNat = n := by
    simpa using Nat.mod_eq_of_lt small
  rw [String.utf8EncodeChar]
  generalize c.val.toNat = v at *
  subst again
  have low (n : Nat) : n % 64 + 128 < 256 := by omega
  split
  · next one =>
    refine ⟨_, _, rfl, ?_⟩
    simp only [readOctets, UInt8.lt_iff_toNat_lt, UInt8.reduceToNat, octet (show v < 256 by omega)]
    rw [if_pos (by omega)]
    rfl
  split
  · next one two =>
    refine ⟨_, _, rfl, ?_⟩
    have first := octet (show v / 64 % 32 + 192 < 256 by omega)
    have second := octet (show v % 64 + 128 < 256 by omega)
    simp only [readOctets, UInt8.lt_iff_toNat_lt, UInt8.le_iff_toNat_le, UInt8.reduceToNat, first,
      List.cons_append, low6, Bool.and_eq_true, decide_eq_true_eq, isTail_iff, second]
    rw [if_neg (by omega), if_pos (by omega), if_pos (by omega)]
    congr 2
    omega
  split
  · next one two three =>
    refine ⟨_, _, rfl, ?_⟩
    have first := octet (show v / 4096 % 16 + 224 < 256 by omega)
    simp only [readOctets, UInt8.lt_iff_toNat_lt, UInt8.le_iff_toNat_le, UInt8.reduceToNat, first,
      List.cons_append, low6, Bool.and_eq_true, decide_eq_true_eq, isTail_iff, octet (low _)]
    have range := (secondRange_iff (UInt8.ofNat (v / 4096 % 16 + 224))
      (UInt8.ofNat (v / 64 % 64 + 128))).mpr (by rw [first, octet (low _)]; omega)
    rw [octet (low _)] at range
    rw [if_neg (by omega), if_neg (by omega), if_pos (by omega), if_pos range, if_pos (by omega)]
    congr 2
    omega
  · next one two three =>
    refine ⟨_, _, rfl, ?_⟩
    have first := octet (show v / 262144 % 8 + 240 < 256 by omega)
    simp only [readOctets, UInt8.lt_iff_toNat_lt, UInt8.le_iff_toNat_le, UInt8.reduceToNat, first,
      List.cons_append, low6, Bool.and_eq_true, decide_eq_true_eq, isTail_iff, octet (low _)]
    have range := (secondRange_iff (UInt8.ofNat (v / 262144 % 8 + 240))
      (UInt8.ofNat (v / 4096 % 64 + 128))).mpr (by rw [first, octet (low _)]; omega)
    rw [octet (low _)] at range
    rw [if_neg (by omega), if_neg (by omega), if_neg (by omega), if_pos (by omega), if_pos range,
      if_pos (by omega), if_pos (by omega)]
    congr 2
    omega

/-- A text that is written as octets is read as that text. -/
theorem ofUtf8?_toUtf8 (text : String) : ofUtf8? (toUtf8 text) = some text := by
  have read (onMalformed : Option Char) (cs : List Char) :
      readUtf8 onMalformed 0 (cs.flatMap String.utf8EncodeChar) = some cs := by
    induction cs with
    | nil => rfl
    | cons c rest ih =>
      obtain ⟨first, more, encoded, character⟩ :=
        readOctets_encode c (rest.flatMap String.utf8EncodeChar)
      rw [List.flatMap_cons, encoded, List.cons_append]
      simp only [readUtf8, character, Nat.add_sub_cancel, readUtf8_skip, ih, Option.map_some]
  rw [ofUtf8?, toUtf8_eq, read, Option.map_some, String.ofList_toList]

/-- A character with a smaller code point has smaller octets, whatever comes behind. -/
theorem encode_lt {c d : Char} (less : c < d) (s t : List UInt8) :
    String.utf8EncodeChar c ++ s < String.utf8EncodeChar d ++ t := by
  have less : c.val.toNat < d.val.toNat := less
  have valid : d.val.toNat < 0xD800 ∨ 0xDFFF < d.val.toNat ∧ d.val.toNat < 0x110000 := d.valid
  simp only [String.utf8EncodeChar]
  generalize c.val.toNat = v at *
  generalize d.val.toNat = w at *
  have octet {n : Nat} (small : n < 256) : (UInt8.ofNat n).toNat = n := by
    simpa using Nat.mod_eq_of_lt small
  -- Which digit to the base 64 is the first that differs.
  have fourth : v / 64 < w / 64 ∨ v / 64 = w / 64 ∧ v % 64 < w % 64 := by omega
  have third : v / 4096 < w / 4096 ∨ v / 4096 = w / 4096 ∧ v / 64 % 64 < w / 64 % 64 ∨ v / 64 = w / 64 := by
    omega
  have second : v / 262144 < w / 262144 ∨ v / 262144 = w / 262144 ∧ v / 4096 % 64 < w / 4096 % 64 ∨
      v / 4096 = w / 4096 := by
    omega
  have same : (v / 64 = w / 64 → v / 4096 = w / 4096) ∧ (v / 4096 = w / 4096 → v / 262144 = w / 262144) := by
    omega
  -- The first octet grows with the number of octets, and of as many octets the first that differs.
  have tops : v / 262144 % 8 = v / 262144 ∧ w / 262144 % 8 = w / 262144 := by omega
  repeat' split
  all_goals simp (disch := omega) only [List.cons_append, List.nil_append, List.cons_lt_cons_iff,
    UInt8.lt_iff_toNat_lt, ← UInt8.toNat_inj, octet]
  all_goals omega

theorem append_lt_append_iff (lead : List UInt8) {s t : List UInt8} : lead ++ s < lead ++ t ↔ s < t := by
  induction lead with
  | nil => exact Iff.rfl
  | cons b lead ih =>
    rw [List.cons_append, List.cons_append, List.cons_lt_cons_iff]
    simp [ih]

/-- Octets are in the order of the texts that they encode. -/
theorem toUtf8_lt_iff (a b : String) : toUtf8 a < toUtf8 b ↔ a < b := by
  have chars (as bs : List Char) :
      as.flatMap String.utf8EncodeChar < bs.flatMap String.utf8EncodeChar ↔ as < bs := by
    induction as generalizing bs with
    | nil =>
      cases bs with
      | nil => simp
      | cons d bs =>
        obtain ⟨first, more, encoded, _⟩ := readOctets_encode d []
        simp [encoded]
    | cons c as ih =>
      cases bs with
      | nil => simp
      | cons d bs =>
        rw [List.flatMap_cons, List.flatMap_cons, List.cons_lt_cons_iff]
        by_cases same : c = d
        · subst same
          rw [append_lt_append_iff, ih]
          simp
        · by_cases less : c < d
          · simp [encode_lt less, less]
          · have greater : d < c := Std.lt_of_le_of_ne (Char.not_lt.mp less) (Ne.symm same)
            simp [same, less, List.lt_asymm (encode_lt greater _ _)]
  rw [toUtf8_eq, toUtf8_eq, chars]
  exact Iff.rfl

end Directives.Text
