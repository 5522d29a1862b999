import Mathlib.Data.List.TakeWhile
import Directives.Document.Json.Reader
import Directives.Document.Json.Writer
import Directives.Proofs.Numerals

/-! The tokens of JSON texts that were written from documents, in whatever style. -/
namespace Directives.Document.Json

/-- Nothing is left, or what is left begins with a character that ends words and numbers. -/
def Ends (rest : List Char) : Prop := ∀ c ∈ rest.head?, c.isLower = false ∧ isNumeric c = false

/-- Characters that make up tokens, whatever comes after them. -/
def Reads (cs : List Char) (found : List Token) : Prop :=
  ∀ rest, tokensFrom .between (cs ++ rest) = (tokensFrom .between rest).map (found ++ ·)

/-- Characters that make up tokens, where a last word or number may end. -/
def Lexes (cs : List Char) (found : List Token) : Prop :=
  ∀ rest, Ends rest → tokensFrom .between (cs ++ rest) = (tokensFrom .between rest).map (found ++ ·)

section
variable {cs more : List Char} {found later : List Token}

theorem Reads.lexes (reads : Reads cs found) : Lexes cs found := fun rest _ => reads rest

theorem reads_nil : Reads [] [] := fun rest => by simp

theorem Reads.append (reads : Reads cs found) (rest : Reads more later) :
    Reads (cs ++ more) (found ++ later) := by
  intro after
  rw [List.append_assoc, reads, rest, Option.map_map]
  simp only [Function.comp_def, List.append_assoc]

theorem Reads.append_lexes (reads : Reads cs found) (rest : Lexes more later) :
    Lexes (cs ++ more) (found ++ later) := by
  intro after ends
  rw [List.append_assoc, reads, rest after ends, Option.map_map]
  simp only [Function.comp_def, List.append_assoc]

theorem Lexes.append (lexes : Lexes cs found) (ends : ∀ after, Ends after → Ends (more ++ after))
    (rest : Lexes more later) : Lexes (cs ++ more) (found ++ later) := by
  intro after ended
  rw [List.append_assoc, lexes _ (ends after ended), rest after ended, Option.map_map]
  simp only [Function.comp_def, List.append_assoc]

end

theorem tokensFrom_silent {reading next : Reading} {c : Char} (taken : take reading c = some ([], next))
    (rest : List Char) : tokensFrom reading (c :: rest) = tokensFrom next rest := by
  simp [tokensFrom, taken]

theorem tokensFrom_begin {c : Char} {token : Option Token} {next : Reading}
    (begun : begin c = some (token, next)) (rest : List Char) :
    tokensFrom .between (c :: rest) = (tokensFrom next rest).map (token.toList ++ ·) := by
  simp [tokensFrom, take, begun]

theorem reads_mark {c : Char} {token : Option Token} (begun : begin c = some (token, .between)) :
    Reads [c] token.toList := tokensFrom_begin begun

theorem begin_of_isSpace {c : Char} (space : isSpace c = true) : begin c = some (none, .between) := by
  unfold begin
  split
  all_goals try cases space
  rw [if_pos space]

theorem reads_space {cs : List Char} (space : ∀ c ∈ cs, isSpace c = true) : Reads cs [] := by
  induction cs with
  | nil => exact reads_nil
  | cons c cs ih =>
    obtain ⟨first, others⟩ := List.forall_mem_cons.mp space
    exact (reads_mark (begin_of_isSpace first)).append (ih others)

theorem reads_break (style : Style) (level : Nat) : Reads (style.break level) [] := by
  cases style with
  | compact => exact reads_nil
  | indented =>
    exact reads_space (List.forall_mem_cons.mpr ⟨rfl, fun _ blank => List.eq_of_mem_replicate blank ▸ rfl⟩)

theorem reads_colon (style : Style) : Reads style.colon [.colon] := by
  cases style with
  | compact => exact reads_mark (c := ':') rfl
  | indented => exact (reads_mark (c := ':') rfl).append (reads_mark (c := ' ') rfl)

/-- A reading that takes characters one after the other. -/
theorem tokensFrom_run {reading : List Char → Reading} {cs : List Char}
    (takes : ∀ read, ∀ c ∈ cs, take (reading read) c = some ([], reading (c :: read)))
    (read rest : List Char) :
    tokensFrom (reading read) (cs ++ rest) = tokensFrom (reading (cs.reverse ++ read)) rest := by
  induction cs generalizing read with
  | nil => rfl
  | cons c cs ih =>
    rw [List.cons_append, tokensFrom_silent (takes read c List.mem_cons_self),
      ih (fun read c member => takes read c (List.mem_cons_of_mem _ member)), List.reverse_cons,
      List.append_assoc, List.singleton_append]

/-- A word or a number ends before anything else begins, and only then is it told whether it is one. -/
theorem tokensFrom_ends {reading : Reading} {found : Option Token}
    (whole : tokensFrom reading [] = found.map ([·]))
    (leaves : ∀ c, c.isLower = false → isNumeric c = false → take reading c =
      found.bind fun token => (begin c).map fun (more, next) => (token :: more.toList, next))
    {rest : List Char} (ends : Ends rest) :
    tokensFrom reading rest = found.bind fun token => (tokensFrom .between rest).map (token :: ·) := by
  cases rest with
  | nil =>
    rw [whole]
    cases found <;> rfl
  | cons c rest =>
    obtain ⟨word, number⟩ := ends c rfl
    rw [tokensFrom, leaves c word number]
    cases found with
    | none => rfl
    | some token =>
      cases begun : begin c with
      | none => simp [tokensFrom, take, begun]
      | some pair =>
        rw [Option.bind_some, Option.bind_some, tokensFrom_begin begun, Option.map_map]
        rfl

/-! Words. -/

theorem tokensFrom_word (letters : List Char) {rest : List Char} (ends : Ends rest) :
    tokensFrom (.word letters) rest =
      (wordToken letters).bind fun token => (tokensFrom .between rest).map (token :: ·) := by
  apply tokensFrom_ends rfl _ ends
  intro c other _
  simp only [take, other]
  cases wordToken letters <;> cases begin c <;> rfl

theorem lexes_word (first : Char) (letters : List Char) {token : Token}
    (begun : begin first = some (none, .word [first])) (lower : letters.all Char.isLower = true)
    (known : wordToken (letters.reverse ++ [first]) = some token) : Lexes (first :: letters) [token] := by
  intro rest ends
  have grows : ∀ read, ∀ c ∈ letters, take (.word read) c = some ([], .word (c :: read)) :=
    fun read c member => by simp [take, List.all_eq_true.mp lower c member]
  rw [List.cons_append, tokensFrom_begin begun, tokensFrom_run grows, tokensFrom_word _ ends, known,
    Option.bind_some, Option.map_map]
  rfl

theorem lexes_null : Lexes "null".toList [.scalar .null] :=
  lexes_word 'n' ['u', 'l', 'l'] rfl rfl rfl

theorem lexes_bool (b : Bool) : Lexes (toString b).toList [.scalar (.bool b)] := by
  cases b with
  | true => exact lexes_word 't' ['r', 'u', 'e'] rfl rfl rfl
  | false => exact lexes_word 'f' ['a', 'l', 's', 'e'] rfl rfl rfl

/-! Integers. -/

theorem natOfDigits_toDigits (n : Nat) : natOfDigits (Nat.toDigits 10 n) = n := by
  have step : (fun n c => n * 10 + digitValue c) =
      fun (sofar : Nat) (c : Char) => 10 * sofar + (c.toNat - '0'.toNat) := by
    funext n c
    rw [Nat.mul_comm]
    rfl
  rw [natOfDigits, step]
  exact Nat.ofDigitChars_ten_toDigits

theorem head?_toDigits {n : Nat} (positive : 0 < n) : (Nat.toDigits 10 n).head? ≠ some '0' := by
  induction n using Nat.strongRecOn with
  | ind n ih =>
    by_cases small : n < 10
    · rw [Nat.toDigits_of_lt_base small]
      simp only [List.head?_cons, ne_eq, Option.some.injEq, Nat.digitChar_eq_zero]
      omega
    · have above := ih (n / 10) (by omega) (by omega)
      rw [Nat.toDigits_of_base_le (by omega) (by omega)]
      cases digits : Nat.toDigits 10 (n / 10) with
      | nil => exact absurd digits Nat.toDigits_ne_nil
      | cons d ds => rwa [digits] at above

/-- The digits of a number are a numeral, with or without a sign. -/
theorem ofChars_toDigits (n : Nat) :
    Numeral.ofChars (Nat.toDigits 10 n) = some ⟨false, Nat.toDigits 10 n, none, none⟩ ∧
      Numeral.ofChars ('-' :: Nat.toDigits 10 n) = some ⟨true, Nat.toDigits 10 n, none, none⟩ := by
  have digits : ∀ c ∈ Nat.toDigits 10 n, c.isDigit = true := fun _ => Integer.isDigit_of_mem_toDigits
  have all : (Nat.toDigits 10 n).takeWhile Char.isDigit = Nat.toDigits 10 n :=
    List.takeWhile_eq_self_iff.mpr digits
  have none : (Nat.toDigits 10 n).dropWhile Char.isDigit = [] := List.dropWhile_eq_nil_iff.mpr digits
  have needed : ¬ ((Nat.toDigits 10 n).isEmpty || (decide ((Nat.toDigits 10 n).head? = some '0') &&
      decide (1 < (Nat.toDigits 10 n).length))) = true := by
    by_cases zero : n = 0
    · subst zero
      decide
    · simp [Nat.toDigits_ne_nil, head?_toDigits (Nat.pos_of_ne_zero zero)]
  have unsigned : ∀ rest, Nat.toDigits 10 n = '-' :: rest → False := by
    intro rest same
    have sign := digits '-' (by rw [same]; exact List.mem_cons_self)
    cases sign
  constructor
  · rw [Numeral.ofChars, all, none, if_neg needed]
    · rfl
    · exact unsigned
  · rw [Numeral.ofChars, all, none, if_neg needed]
    rfl

theorem isNumeric_of_isDigit {c : Char} (digit : c.isDigit = true) : isNumeric c = true := by
  simp [isNumeric, digit]

theorem begin_of_isDigit {c : Char} (digit : c.isDigit = true) : begin c = some (none, .number [c]) := by
  unfold begin
  split
  all_goals try cases digit
  have blank : isSpace c = false := by
    simp only [isSpace, Bool.or_eq_false_iff, beq_eq_false_iff_ne]
    refine ⟨⟨⟨?_, ?_⟩, ?_⟩, ?_⟩ <;> (rintro rfl; cases digit)
  simp [blank, digit]

theorem tokensFrom_number (digits : List Char) {rest : List Char} (ends : Ends rest) :
    tokensFrom (.number digits) rest =
      (numberToken digits).bind fun token => (tokensFrom .between rest).map (token :: ·) := by
  apply tokensFrom_ends rfl _ ends
  intro c _ other
  simp only [take, other]
  cases numberToken digits <;> cases begin c <;> rfl

theorem tokensFrom_numeric {first : Char} {digits rest : List Char}
    (begun : begin first = some (none, .number [first])) (numeric : ∀ c ∈ digits, isNumeric c = true)
    (ends : Ends rest) : tokensFrom .between (first :: digits ++ rest) =
      (numberToken (first :: digits).reverse).bind fun token => (tokensFrom .between rest).map (token :: ·) := by
  have grows : ∀ read, ∀ c ∈ digits, take (.number read) c = some ([], .number (c :: read)) :=
    fun read c member => by simp [take, numeric c member]
  rw [List.cons_append, tokensFrom_begin begun, tokensFrom_run grows, tokensFrom_number _ ends,
    List.reverse_cons]
  exact Option.map_id'

def numeral (i : Int) : Numeral := ⟨decide (i < 0), Nat.toDigits 10 i.natAbs, none, none⟩

theorem ofChars_toString (i : Int) : Numeral.ofChars (toString i).toList = some (numeral i) := by
  obtain ⟨unsigned, signed⟩ := ofChars_toDigits i.natAbs
  rw [Integer.toList_toString_int]
  split
  · next below => rw [signed, numeral, decide_eq_true below]
  · next above => rw [unsigned, numeral, decide_eq_false above]

/-- An integer is one number, if it is one that can be read. -/
theorem tokensFrom_toString (i : Int) {rest : List Char} (ends : Ends rest) :
    tokensFrom .between ((toString i).toList ++ rest) =
      (numeral i).toDocument.bind fun d => (tokensFrom .between rest).map (.scalar d :: ·) := by
  have numeric : ∀ c ∈ Nat.toDigits 10 i.natAbs, isNumeric c = true := fun _ member =>
    isNumeric_of_isDigit (Integer.isDigit_of_mem_toDigits member)
  have token : numberToken (toString i).toList.reverse = (numeral i).toDocument.map .scalar := by
    rw [numberToken, List.reverse_reverse, ofChars_toString, Option.bind_some]
  have whole : tokensFrom .between ((toString i).toList ++ rest) =
      (numberToken (toString i).toList.reverse).bind fun token =>
        (tokensFrom .between rest).map (token :: ·) := by
    rw [Integer.toList_toString_int]
    split
    · exact tokensFrom_numeric rfl numeric ends
    · cases digits : Nat.toDigits 10 i.natAbs with
      | nil => exact absurd digits Nat.toDigits_ne_nil
      | cons first more =>
        have digit : first.isDigit = true :=
          Integer.isDigit_of_mem_toDigits (digits ▸ List.mem_cons_self : first ∈ Nat.toDigits 10 i.natAbs)
        exact tokensFrom_numeric (begin_of_isDigit digit)
          (fun c member => numeric c (digits ▸ List.mem_cons_of_mem _ member)) ends
  rw [whole, token, Option.bind_map]
  rfl

/-- An integer that fits in sixty-four bits, with or without a sign. -/
def Fits (i : Int) : Prop := -9223372036854775808 ≤ i ∧ i < 18446744073709551616

theorem toDocument_numeral {i : Int} (fits : Fits i) : (numeral i).toDocument = some (.integer i) := by
  obtain ⟨least, most⟩ := fits
  have small : i.natAbs < 18446744073709551616 := by omega
  by_cases below : i < 0
  · have bounded : i.natAbs ≤ 9223372036854775808 := by omega
    have nonzero : i ≠ 0 := by omega
    simp [numeral, Numeral.toDocument, natOfDigits_toDigits, below, small, bounded, nonzero, abs_of_neg below]
  · have back : (i.natAbs : Int) = i := by omega
    simp [numeral, Numeral.toDocument, natOfDigits_toDigits, below, small, back]

theorem lexes_integer {i : Int} (fits : Fits i) : Lexes (toString i).toList [.scalar (.integer i)] := by
  intro rest ends
  rw [tokensFrom_toString i ends, toDocument_numeral fits]
  rfl

/-! Texts. -/

/-- A control character is written with two zeros and the two digits of its number. -/
theorem codeEscape_ofNat : ∀ n < 32, codeEscape (Char.ofNat n) =
    ['\\', 'u', '0', '0', Nat.digitChar (n / 16), Nat.digitChar (n % 16)] ∧
      hexDigit? (Nat.digitChar (n / 16)) = some (n / 16) ∧
      hexDigit? (Nat.digitChar (n % 16)) = some (n % 16) := by
  decide

theorem tokensFrom_codeEscape {c : Char} (control : c.toNat < 32) (value rest : List Char) :
    tokensFrom (.text value) (codeEscape c ++ rest) = tokensFrom (.text (c :: value)) rest := by
  have again : Char.ofNat c.toNat = c := Char.ofNat_toNat c
  obtain ⟨escaped, high, low⟩ := codeEscape_ofNat c.toNat control
  rw [again] at escaped
  have zero : hexDigit? '0' = some 0 := rfl
  have code : ((0 * 16 + 0) * 16 + 0) * 16 + c.toNat / 16 = c.toNat / 16 := by omega
  have whole : (c.toNat / 16) * 16 + c.toNat % 16 = c.toNat := by omega
  have plain : afterCode value c.toNat none = some (.text (c :: value)) := by
    rw [afterCode, if_neg (by omega), if_neg (by omega), again]
  have escape : take (.text value) '\\' = some ([], .escape value) := rfl
  have begun : take (.escape value) 'u' = some ([], .hex value none 4 0) := rfl
  have first : take (.hex value none 4 0) '0' = some ([], .hex value none 3 0) := rfl
  have second : take (.hex value none 3 0) '0' = some ([], .hex value none 2 0) := rfl
  have third : take (.hex value none 2 0) (Nat.digitChar (c.toNat / 16)) =
      some ([], .hex value none 1 (c.toNat / 16)) := by
    simp [take, inside, high]
  have fourth : take (.hex value none 1 (c.toNat / 16)) (Nat.digitChar (c.toNat % 16)) =
      some ([], .text (c :: value)) := by
    simp [take, inside, low, whole, plain]
  rw [escaped]
  simp only [List.cons_append, List.nil_append]
  rw [tokensFrom_silent escape, tokensFrom_silent begun, tokensFrom_silent first, tokensFrom_silent second,
    tokensFrom_silent third, tokensFrom_silent fourth]

theorem tokensFrom_escapeChar (c : Char) (value rest : List Char) :
    tokensFrom (.text value) (escapeChar c ++ rest) = tokensFrom (.text (c :: value)) rest := by
  have escape : take (.text value) '\\' = some ([], .escape value) := rfl
  unfold escapeChar
  split
  all_goals try exact (tokensFrom_silent escape _).trans (tokensFrom_silent rfl _)
  next quote backslash _ _ _ _ _ =>
  split
  · next control => exact tokensFrom_codeEscape control value rest
  · next printed =>
    have taken : take (.text value) c = some ([], .text (c :: value)) := by
      simp [take, inside, printed, show c ≠ '"' from quote, show c ≠ '\\' from backslash]
    exact tokensFrom_silent taken rest

theorem reads_quote (s : String) : Reads (quote s) [.text s] := by
  intro rest
  have inner (cs value : List Char) : tokensFrom (.text value) (cs.flatMap escapeChar ++ ('"' :: rest)) =
      (tokensFrom .between rest).map (.text (String.ofList (value.reverse ++ cs)) :: ·) := by
    induction cs generalizing value with
    | nil =>
      have taken : take (.text value) '"' = some ([.text (String.ofList value.reverse)], .between) := rfl
      rw [List.flatMap_nil, List.nil_append, tokensFrom, taken, List.append_nil]
      rfl
    | cons c cs ih =>
      rw [List.flatMap_cons, List.append_assoc, tokensFrom_escapeChar, ih, List.reverse_cons,
        List.append_assoc, List.singleton_append]
  have opened : quote s ++ rest = '"' :: (s.toList.flatMap escapeChar ++ ('"' :: rest)) := by
    simp [quote]
  rw [opened, tokensFrom_begin rfl, inner, List.reverse_nil, List.nil_append, String.ofList_toList,
    Option.map_map]
  rfl

/-! Documents. -/

mutual

def tokensOf : Document → List Token
  | text s => [.text s]
  | list [] => [.openList, .closeList]
  | list (item :: rest) => .openList :: (tokensOf item ++ tokensOfItems rest ++ [.closeList])
  | object [] => [.openObject, .closeObject]
  | object ((key, value) :: rest) =>
    .openObject :: .text key :: .colon :: (tokensOf value ++ tokensOfEntries rest ++ [.closeObject])
  | scalar => [.scalar scalar]
termination_by structural d => d

def tokensOfItems : List Document → List Token
  | [] => []
  | item :: rest => .comma :: (tokensOf item ++ tokensOfItems rest)
termination_by structural items => items

def tokensOfEntries : List (String × Document) → List Token
  | [] => []
  | (key, value) :: rest => .comma :: .text key :: .colon :: (tokensOf value ++ tokensOfEntries rest)
termination_by structural entries => entries

end

/-- A token that can be read back from what is written for it. -/
def Token.IsExact : Token → Prop
  | .scalar (.integer i) => Fits i
  | .scalar (.float _) => False
  | _ => True

/-- Brackets and separators end words and numbers. -/
theorem ends_of_mark {c : Char} (mark : c ∈ [',', ']', '}', '\n']) (after : List Char) :
    Ends (c :: after) := by
  have apart : [',', ']', '}', '\n'].all (fun c => !c.isLower && !isNumeric c) = true := by decide
  intro first begins
  obtain rfl := Option.some.inj begins
  simpa using List.all_eq_true.mp apart c mark

theorem ends_break (style : Style) (level : Nat) {c : Char} (mark : c ∈ [',', ']', '}', '\n'])
    (after : List Char) : Ends (style.break level ++ [c] ++ after) := by
  cases style with
  | compact => exact ends_of_mark mark after
  | indented => exact ends_of_mark (by decide) _

theorem ends_writeItems (style : Style) (level : Nat) (items : List Document) {after : List Char}
    (ends : Ends after) : Ends (writeItems style level items ++ after) := by
  cases items with
  | nil => exact ends
  | cons item rest => exact ends_of_mark (by decide) _

theorem ends_writeEntries (style : Style) (level : Nat) (entries : List (String × Document))
    {after : List Char} (ends : Ends after) : Ends (writeEntries style level entries ++ after) := by
  cases entries with
  | nil => exact ends
  | cons entry rest => exact ends_of_mark (by decide) _

theorem reads_close (style : Style) (level : Nat) {c : Char} {token : Token}
    (begun : begin c = some (some token, .between)) : Reads (style.break level ++ [c]) [token] :=
  (reads_break style level).append (reads_mark begun)

theorem reads_key (style : Style) (level : Nat) (key : String) :
    Reads (style.break level ++ quote key ++ style.colon) [.text key, .colon] :=
  ((reads_break style level).append (reads_quote key)).append (reads_colon style)

mutual

/-- A written document is read as its tokens, in either style. -/
theorem lexes_write (style : Style) : ∀ (d : Document) (level : Nat),
    (∀ token ∈ tokensOf d, token.IsExact) → Lexes (write style level d) (tokensOf d)
  | .null, _, _ => lexes_null
  | .bool b, _, _ => lexes_bool b
  | .integer i, _, isExact => lexes_integer (isExact _ List.mem_cons_self)
  | .float x, _, isExact => (isExact _ List.mem_cons_self).elim
  | .text s, _, _ => (reads_quote s).lexes
  | .list [], _, _ => ((reads_mark (c := '[') rfl).append (reads_mark (c := ']') rfl)).lexes
  | .list (item :: rest), level, isExact => by
    simp only [tokensOf, List.forall_mem_cons, List.forall_mem_append] at isExact
    obtain ⟨_, ⟨first, others⟩, _⟩ := isExact
    have closed := reads_close style level (c := ']') rfl
    have items := (lexes_writeItems style rest (level + 1) others).append
      (fun after _ => ends_break style level (by decide) after) closed.lexes
    have inside := (lexes_write style item (level + 1) first).append (fun after _ => by
      rw [List.append_assoc]
      exact ends_writeItems style (level + 1) rest (ends_break style level (by decide) after)) items
    have opened := (reads_mark (c := '[') rfl).append (reads_break style (level + 1))
    simpa [write, tokensOf] using opened.append_lexes inside
  | .object [], _, _ => ((reads_mark (c := '{') rfl).append (reads_mark (c := '}') rfl)).lexes
  | .object ((key, value) :: rest), level, isExact => by
    simp only [tokensOf, List.forall_mem_cons, List.forall_mem_append] at isExact
    obtain ⟨_, _, _, ⟨first, others⟩, _⟩ := isExact
    have closed := reads_close style level (c := '}') rfl
    have entries := (lexes_writeEntries style rest (level + 1) others).append
      (fun after _ => ends_break style level (by decide) after) closed.lexes
    have inside := (lexes_write style value (level + 1) first).append (fun after _ => by
      rw [List.append_assoc]
      exact ends_writeEntries style (level + 1) rest (ends_break style level (by decide) after)) entries
    have opened := (reads_mark (c := '{') rfl).append (reads_key style (level + 1) key)
    simpa [write, tokensOf] using opened.append_lexes inside
termination_by structural d => d

theorem lexes_writeItems (style : Style) : ∀ (items : List Document) (level : Nat),
    (∀ token ∈ tokensOfItems items, token.IsExact) →
    Lexes (writeItems style level items) (tokensOfItems items)
  | [], _, _ => reads_nil.lexes
  | item :: rest, level, isExact => by
    simp only [tokensOfItems, List.forall_mem_cons, List.forall_mem_append] at isExact
    obtain ⟨_, first, others⟩ := isExact
    have inside := (lexes_write style item level first).append
      (fun _ ends => ends_writeItems style level rest ends) (lexes_writeItems style rest level others)
    have parted := (reads_mark (c := ',') rfl).append (reads_break style level)
    simpa [writeItems, tokensOfItems] using parted.append_lexes inside
termination_by structural items => items

theorem lexes_writeEntries (style : Style) : ∀ (entries : List (String × Document)) (level : Nat),
    (∀ token ∈ tokensOfEntries entries, token.IsExact) →
    Lexes (writeEntries style level entries) (tokensOfEntries entries)
  | [], _, _ => reads_nil.lexes
  | (key, value) :: rest, level, isExact => by
    simp only [tokensOfEntries, List.forall_mem_cons, List.forall_mem_append] at isExact
    obtain ⟨_, _, _, first, others⟩ := isExact
    have inside := (lexes_write style value level first).append
      (fun _ ends => ends_writeEntries style level rest ends) (lexes_writeEntries style rest level others)
    have parted := (reads_mark (c := ',') rfl).append (reads_key style level key)
    simpa [writeEntries, tokensOfEntries] using parted.append_lexes inside
termination_by structural entries => entries

end

/-- What is written for a document is read as its tokens. -/
theorem tokens_write {d : Document} (isExact : ∀ token ∈ tokensOf d, token.IsExact) (style : Style)
    {ending : List Char} (ends : Ends ending) (blank : tokensFrom .between ending = some []) :
    tokens (String.ofList (write style 0 d ++ ending)) = some (tokensOf d) := by
  rw [tokens, String.toList_ofList, lexes_write style d 0 isExact ending ends, blank, Option.map_some,
    List.append_nil]

end Directives.Document.Json
