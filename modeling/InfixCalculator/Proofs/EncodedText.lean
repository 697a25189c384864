import InfixCalculator.Proofs.Decomposition
import InfixCalculator.Proofs.Rendering

/-!
The cut of a text by the bytes that encode it. Offsets count bytes, and the depth of
parentheses is a natural number that is counted down. Only bytes below 128 decide on
the cut. These never lie inside of a longer character, so every offset stands between
two characters and the fragments are those of the text.
-/

namespace InfixCalculator

abbrev Bytes := List UInt8

def encode (text : Text) : Bytes := text.flatMap String.utf8EncodeChar

def isStartByte (byte : UInt8) : Bool :=
  (65 ≤ byte && byte ≤ 90) || (97 ≤ byte && byte ≤ 122) || byte == 95

def isContinueByte (byte : UInt8) : Bool := isStartByte byte || (48 ≤ byte && byte ≤ 57)

def isBlankByte (byte : UInt8) : Bool :=
  byte == 32 || byte == 9 || byte == 10 || byte == 12 || byte == 13

inductive ByteFailure where
  | negativeDepth
  | unclosedCall (start stop : Nat)
  deriving DecidableEq

/-- A fragment by the offsets it is cut at. A call has the offsets of its name and
those of its two parentheses. -/
inductive ByteCut where
  | plain (start stop : Nat)
  | name (start stop : Nat)
  | call (start stop opening closing : Nat)
  deriving DecidableEq

def closingOffset : Nat → Nat → Bytes → Except ByteFailure (Option Nat)
  | _, _, [] => .ok none
  | depth, offset, byte :: rest =>
      if byte = 40 then closingOffset (depth + 1) (offset + 1) rest
      else if byte = 41 then
        match depth with
        | 0 => .error .negativeDepth
        | 1 => .ok (some offset)
        | outer + 2 => closingOffset (outer + 1) (offset + 1) rest
      else closingOffset depth (offset + 1) rest

def plainCut (start stop : Nat) : List ByteCut :=
  if start < stop then [.plain start stop] else []

theorem drop_continue_length {byte : UInt8} (started : isStartByte byte) (rest : Bytes) :
    ((byte :: rest).dropWhile isContinueByte).length ≤ rest.length := by
  rw [List.dropWhile_cons_of_pos (by simp [isContinueByte, started])]
  exact (List.dropWhile_suffix _).length_le

/-- Cuts the bytes that start at offset `pos`. Those from `start` to `pos` are plain and
not cut off yet. -/
def scanBytes (start pos : Nat) (bytes : Bytes) : Except ByteFailure (List ByteCut) :=
  match bytes with
  | [] => .ok (plainCut start pos)
  | byte :: rest =>
      if started : isStartByte byte then
        let stop := pos + ((byte :: rest).takeWhile isContinueByte).length
        let after := (byte :: rest).dropWhile isContinueByte
        let opening := stop + (after.takeWhile isBlankByte).length
        let behind := after.dropWhile isBlankByte
        if behind.head? = some 40 then
          match closingOffset 0 opening behind with
          | .error failure => .error failure
          | .ok none => .error (.unclosedCall pos stop)
          | .ok (some closing) =>
              (scanBytes (closing + 1) (closing + 1) (behind.drop (closing + 1 - opening))).map
                (plainCut start pos ++ .call pos stop opening closing :: ·)
        else (scanBytes stop stop after).map (plainCut start pos ++ .name pos stop :: ·)
      else scanBytes start (pos + 1) rest
  termination_by bytes.length
  decreasing_by
    · have shorter : behind.length ≤ after.length := (List.dropWhile_suffix _).length_le
      have name : after.length ≤ rest.length := drop_continue_length started rest
      rw [List.length_drop]
      exact Nat.lt_succ_of_le ((Nat.sub_le _ _).trans (shorter.trans name))
    · exact Nat.lt_succ_of_le (drop_continue_length started rest)
    · exact Nat.lt_succ_self _

/-- The bytes of the class are those that the symbols of the other are encoded by. -/
def Encodes (symbols : Char → Bool) (bytes : UInt8 → Bool) : Prop :=
  ∀ symbol, ∀ byte ∈ String.utf8EncodeChar symbol, bytes byte = symbols symbol

theorem encode_append (text rest : Text) : encode (text ++ rest) = encode text ++ encode rest :=
  List.flatMap_append

theorem encode_cons (symbol : Char) (rest : Text) :
    encode (symbol :: rest) = String.utf8EncodeChar symbol ++ encode rest :=
  List.flatMap_cons

theorem encode_length_append (text rest : Text) :
    (encode (text ++ rest)).length = (encode text).length + (encode rest).length := by
  rw [encode_append, List.length_append]

theorem exists_encoding (symbol : Char) :
    ∃ byte others, String.utf8EncodeChar symbol = byte :: others := by
  apply List.exists_cons_of_ne_nil
  intro empty
  have size := String.length_utf8EncodeChar symbol
  rw [empty] at size
  exact absurd size.symm (Char.utf8Size_pos symbol).ne'

theorem encode_length_pos {text : Text} (filled : text ≠ []) : 0 < (encode text).length := by
  obtain ⟨symbol, others, rfl⟩ := List.exists_cons_of_ne_nil filled
  obtain ⟨byte, rest, shown⟩ := exists_encoding symbol
  rw [encode_cons, shown]
  exact Nat.succ_pos _

/-- A short character is encoded by its code, any other by bytes that encode no short
one. -/
theorem encoding_cases (symbol : Char) :
    (symbol.toNat < 128 ∧ String.utf8EncodeChar symbol = [.ofNat symbol.toNat]) ∨
      (128 ≤ symbol.toNat ∧ ∀ byte ∈ String.utf8EncodeChar symbol, 128 ≤ byte.toNat) := by
  have code : symbol.val.toNat = symbol.toNat := rfl
  rw [String.utf8EncodeChar.eq_def]
  simp only [code]
  split
  · exact .inl ⟨by omega, rfl⟩
  · refine .inr ⟨by omega, ?_⟩
    split
    · intro byte member
      simp only [List.mem_cons, List.not_mem_nil, or_false] at member
      rcases member with rfl | rfl <;> simp <;> omega
    · split <;>
      · intro byte member
        simp only [List.mem_cons, List.not_mem_nil, or_false] at member
        rcases member with rfl | rfl | rfl | rfl <;> simp <;> omega

/-- Classes encode one another if they agree on short characters and hold no others. -/
theorem encodes_of_short {symbols : Char → Bool} {bytes : UInt8 → Bool}
    (short : ∀ code < 128, bytes (.ofNat code) = symbols (.ofNat code))
    (high : ∀ code < 128, bytes (.ofNat (128 + code)) = false)
    (low : ∀ symbol, symbols symbol → symbol.toNat < 128) : Encodes symbols bytes := by
  intro symbol byte member
  rcases encoding_cases symbol with ⟨small, encoding⟩ | ⟨large, encoding⟩
  · rw [encoding, List.mem_singleton] at member
    rw [member, short _ small, Char.ofNat_toNat]
  · have other : symbols symbol = false := by
      by_contra held
      exact absurd (low symbol (by simpa using held)) (Nat.not_lt.2 large)
    have bound := encoding byte member
    have outside := high (byte.toNat - 128) (by have := byte.toNat_lt; omega)
    rw [Nat.add_sub_of_le bound, UInt8.ofNat_toNat] at outside
    rw [outside, other]

theorem encodes_continue : Encodes isIdentifierContinue isContinueByte := by
  apply encodes_of_short (by decide) (by decide)
  intro symbol inside
  exact (continue_visible inside).2.trans (by decide)

theorem encodes_start : Encodes isIdentifierStart isStartByte := by
  apply encodes_of_short (by decide) (by decide)
  intro symbol start
  exact (continue_visible (continue_of_start start)).2.trans (by decide)

theorem encodes_gap : Encodes isGapChar isBlankByte := by
  apply encodes_of_short (by decide) (by decide)
  intro symbol blank
  simp only [isGapChar, Bool.or_eq_true, beq_iff_eq] at blank
  rcases blank with (((rfl | rfl) | rfl) | rfl) | rfl <;> decide

theorem encodes_opening : Encodes (· == '(') (· == 40) := by
  apply encodes_of_short (by decide) (by decide)
  intro symbol same
  rw [eq_of_beq same]
  decide

theorem encodes_closing : Encodes (· == ')') (· == 41) := by
  apply encodes_of_short (by decide) (by decide)
  intro symbol same
  rw [eq_of_beq same]
  decide

section

variable {symbols : Char → Bool} {bytes : UInt8 → Bool}

theorem encode_take_while (same : Encodes symbols bytes) (text : Text) :
    (encode text).takeWhile bytes = encode (text.takeWhile symbols) := by
  induction text with
  | nil => rfl
  | cons symbol rest induction =>
      have whole := same symbol
      by_cases member : symbols symbol
      · rw [member] at whole
        rw [List.takeWhile_cons_of_pos member, encode_cons, encode_cons,
          List.takeWhile_append_of_pos whole, induction]
      · obtain ⟨byte, others, shown⟩ := exists_encoding symbol
        have first := whole byte (by rw [shown]; exact List.mem_cons_self)
        rw [List.takeWhile_cons_of_neg member, encode_cons, shown, List.cons_append,
          List.takeWhile_cons_of_neg (by rwa [first])]
        rfl

theorem encode_drop_while (same : Encodes symbols bytes) (text : Text) :
    (encode text).dropWhile bytes = encode (text.dropWhile symbols) := by
  apply @List.append_cancel_left _ ((encode text).takeWhile bytes)
  rw [List.takeWhile_append_dropWhile, encode_take_while same, ← encode_append,
    List.takeWhile_append_dropWhile]

end

theorem encode_not_opening {text : Text} (other : text.head? ≠ some '(') :
    (encode text).head? ≠ some 40 := by
  cases text with
  | nil => simp [encode]
  | cons symbol rest =>
      obtain ⟨byte, others, shown⟩ := exists_encoding symbol
      have same := encodes_opening symbol byte (by rw [shown]; exact List.mem_cons_self)
      rw [encode_cons, shown]
      intro opening
      obtain rfl : byte = 40 := Option.some.inj opening
      exact other (congrArg some (eq_of_beq same.symm))

theorem encode_identifier {identifier : Text} (isName : IsIdentifier identifier) (rest : Text) :
    ∃ byte others, encode (identifier ++ rest) = byte :: others ∧ isStartByte byte := by
  match identifier, isName with
  | symbol :: run, ⟨start, _⟩ =>
      obtain ⟨byte, others, shown⟩ := exists_encoding symbol
      have same := encodes_start symbol byte (by rw [shown]; exact List.mem_cons_self)
      refine ⟨byte, others ++ encode (run ++ rest), ?_, same.trans start⟩
      rw [List.cons_append, encode_cons, shown]
      rfl

theorem closing_offset_other {run : Bytes} (other : ∀ byte ∈ run, byte ≠ 40 ∧ byte ≠ 41)
    (depth offset : Nat) (rest : Bytes) :
    closingOffset depth offset (run ++ rest) = closingOffset depth (offset + run.length) rest := by
  induction run generalizing offset with
  | nil => rfl
  | cons byte run induction =>
      obtain ⟨opening, closing⟩ := other byte List.mem_cons_self
      have others := fun later member => other later (List.mem_cons_of_mem byte member)
      rw [List.cons_append, closingOffset.eq_def]
      simp only [if_neg opening, if_neg closing]
      rw [induction others, List.length_cons, Nat.add_right_comm, Nat.add_assoc offset]

theorem closing_offset_cons (symbol : Char) (offset : Nat) (found : Option (Text × Text)) :
    (found.map fun parts =>
        offset + (String.utf8EncodeChar symbol).length + (encode parts.1).length) =
      (found.map fun (inside, behind) => (symbol :: inside, behind)).map fun parts =>
        offset + (encode parts.1).length := by
  rw [Option.map_map]
  apply congrArg fun change => found.map change
  funext parts
  show _ = offset + (encode (symbol :: parts.1)).length
  rw [encode_cons, List.length_append, Nat.add_assoc]

/-- The depth that is counted down in the bytes is one above the number of groups open
behind the first parenthesis, so it is never brought below zero. -/
theorem closing_offset_encode (depth offset : Nat) (text : Text) :
    closingOffset (depth + 1) offset (encode text) =
      .ok ((splitAtClosing? depth text).map fun parts => offset + (encode parts.1).length) := by
  fun_induction splitAtClosing? depth text generalizing offset with
  | case1 depth => rfl
  | case2 rest => rfl
  | case3 rest outer induction =>
      have step : closingOffset (outer + 2) offset (encode (')' :: rest)) =
          closingOffset (outer + 1) (offset + 1) (encode rest) := rfl
      rw [step, induction, ← closing_offset_cons]
      rfl
  | case4 depth rest closing induction =>
      have step : closingOffset (depth + 1) offset (encode ('(' :: rest)) =
          closingOffset (depth + 2) (offset + 1) (encode rest) := rfl
      rw [step, induction, ← closing_offset_cons]
      rfl
  | case5 depth symbol rest closing opening induction =>
      have other : ∀ byte ∈ String.utf8EncodeChar symbol, byte ≠ 40 ∧ byte ≠ 41 := by
        intro byte member
        have first := encodes_opening symbol byte member
        have second := encodes_closing symbol byte member
        constructor
        · rintro rfl
          exact opening (eq_of_beq first.symm)
        · rintro rfl
          exact closing (eq_of_beq second.symm)
      rw [encode_cons, closing_offset_other other, induction, closing_offset_cons]

theorem closing_offset_group (opening : Nat) (inner : Text) :
    closingOffset 0 opening (encode ('(' :: inner)) =
      .ok ((splitAtClosing? 0 inner).map fun parts => opening + 1 + (encode parts.1).length) :=
  closing_offset_encode 0 (opening + 1) inner

theorem drop_group (opening : Nat) (argument behind : Text) :
    (encode ('(' :: argument ++ ')' :: behind)).drop
      (opening + 1 + (encode argument).length + 1 - opening) = encode behind := by
  have whole : encode ('(' :: argument ++ ')' :: behind) =
      encode ('(' :: argument ++ [')']) ++ encode behind := by
    rw [← encode_append]
    simp
  have width : opening + 1 + (encode argument).length + 1 - opening =
      (encode ('(' :: argument ++ [')'])).length := by
    rw [encode_append, List.length_append]
    show _ = (encode argument).length + 1 + 1
    omega
  rw [whole, width, List.drop_left]

theorem scan_bytes_plain {run : Bytes} (plain : ∀ byte ∈ run, isStartByte byte = false)
    (start pos : Nat) (rest : Bytes) :
    scanBytes start pos (run ++ rest) = scanBytes start (pos + run.length) rest := by
  induction run generalizing pos with
  | nil => rfl
  | cons byte run induction =>
      have others := fun later member => plain later (List.mem_cons_of_mem byte member)
      have first : ¬isStartByte byte := by simp [plain byte List.mem_cons_self]
      rw [List.cons_append, scanBytes, dif_neg first, induction others, List.length_cons,
        Nat.add_right_comm, Nat.add_assoc pos]

/-- The bytes of an identifier are read as the identifier is, and what follows decides
on the rest. -/
theorem scan_bytes_identifier {identifier after : Text} (isName : IsIdentifier identifier)
    (outside : StartsOutside after) {start pos stop : Nat}
    (width : stop = pos + (encode identifier).length) :
    scanBytes start pos (encode (identifier ++ after)) =
      match continuation after with
      | .bare =>
          (scanBytes stop stop (encode after)).map (plainCut start pos ++ .name pos stop :: ·)
      | .unclosed => .error (.unclosedCall pos stop)
      | .call gap argument behind =>
          let opening := stop + (encode gap).length
          let closing := opening + 1 + (encode argument).length
          (scanBytes (closing + 1) (closing + 1) (encode behind)).map
            (plainCut start pos ++ .call pos stop opening closing :: ·) := by
  obtain ⟨byte, others, shown, first⟩ := encode_identifier isName after
  rw [shown, scanBytes, dif_pos first, ← shown, encode_take_while encodes_continue,
    encode_drop_while encodes_continue, take_identifier isName outside,
    drop_identifier isName outside, ← width]
  simp only [encode_take_while encodes_gap, encode_drop_while encodes_gap]
  rcases continuation_cases after with uncalled | ⟨gap, inner, rfl, blanks, unclosed⟩ |
    ⟨gap, argument, behind, rfl, blanks, balanced⟩
  · rw [continuation_bare uncalled, if_neg (encode_not_opening uncalled)]
  · have opens : (encode ('(' :: inner)).head? = some 40 := rfl
    rw [continuation_unclosed blanks unclosed, take_blank_opening blanks,
      drop_blank_opening blanks, if_pos opens, closing_offset_group, unclosed]
    rfl
  · have opens : (encode ('(' :: argument ++ ')' :: behind)).head? = some 40 := rfl
    rw [continuation_closed blanks balanced, List.append_assoc, List.cons_append,
      take_blank_opening blanks, drop_blank_opening blanks, ← List.cons_append, if_pos opens,
      List.cons_append, closing_offset_group, split_at_closing_balanced balanced]
    simp only [Option.map_some]
    rw [← List.cons_append, drop_group]

/-- The offsets stand between two characters of the text, with the piece in between. -/
def IsSlice (text : Text) (start stop : Nat) (piece : Text) : Prop :=
  ∃ front behind, text = front ++ piece ++ behind ∧ start = (encode front).length ∧
    stop = (encode (front ++ piece)).length

def Marks (text : Text) : ByteCut → Fragment → Prop
  | .plain start stop, .plain source => IsSlice text start stop source
  | .name start stop, .name identifier => IsSlice text start stop identifier
  | .call start stop opening closing, .call identifier gap argument =>
      IsSlice text start stop identifier ∧ IsSlice text stop opening gap ∧
        IsSlice text (opening + 1) closing argument ∧
        IsSlice text start (closing + 1) (Fragment.call identifier gap argument).source
  | _, _ => False

/-- The bytes are cut where the text is, and fail with the name that the text does. -/
def Agrees (text : Text) :
    Except ByteFailure (List ByteCut) → Except TextFailure (List Fragment) → Prop
  | .ok cuts, .ok fragments => List.Forall₂ (Marks text) cuts fragments
  | .error (.unclosedCall start stop), .error (.unclosedCall identifier) =>
      IsSlice text start stop identifier
  | _, _ => False

def plainPart (source : Text) : List Fragment := if source = [] then [] else [.plain source]

theorem split_calls_held {held rest : Text} (nameless : IsNameless held)
    (apart : rest.head?.any (!isIdentifierStart ·) = false) :
    splitCalls (held ++ rest) = (splitCalls rest).map (plainPart held ++ ·) := by
  by_cases empty : held = []
  · rw [empty]
    exact (map_id_answer _).symm
  · rw [split_calls_plain empty nameless apart, plainPart, if_neg empty]
    rfl

section

variable {whole front held rest : Text}

theorem plain_marks (same : whole = front ++ held ++ rest) :
    List.Forall₂ (Marks whole) (plainCut (encode front).length (encode (front ++ held)).length)
      (plainPart held) := by
  by_cases empty : held = []
  · rw [plainCut, plainPart, if_pos empty, empty, List.append_nil, if_neg (lt_irrefl _)]
    exact .nil
  · have longer : (encode front).length < (encode (front ++ held)).length := by
      have filled := encode_length_pos empty
      rw [encode_length_append]
      omega
    rw [plainCut, plainPart, if_neg empty, if_pos longer]
    exact .cons ⟨front, rest, same, rfl, rfl⟩ .nil

theorem slice_at {piece : Text} {start stop : Nat} (front behind : Text)
    (same : whole = front ++ piece ++ behind) (first : start = (encode front).length)
    (width : stop = start + (encode piece).length) : IsSlice whole start stop piece :=
  ⟨front, behind, same, first, by rw [width, first, encode_length_append]⟩

theorem call_marks {identifier gap argument : Text} {start stop opening closing : Nat}
    (same : whole = front ++ (Fragment.call identifier gap argument).source ++ rest)
    (first : start = (encode front).length) (name : stop = start + (encode identifier).length)
    (blanks : opening = stop + (encode gap).length)
    (inside : closing = opening + 1 + (encode argument).length) :
    Marks whole (.call start stop opening closing) (.call identifier gap argument) ∧
      closing + 1 = (encode (front ++ (Fragment.call identifier gap argument).source)).length := by
  have parens : (encode ['(']).length = 1 ∧ (encode [')']).length = 1 := ⟨rfl, rfl⟩
  have source : (Fragment.call identifier gap argument).source =
      identifier ++ gap ++ ['('] ++ argument ++ [')'] := by simp [Fragment.source]
  have width : closing + 1 =
      (encode (front ++ (Fragment.call identifier gap argument).source)).length := by
    simp only [source, encode_length_append, parens]
    omega
  have nameSlice : IsSlice whole start stop identifier :=
    slice_at front (gap ++ '(' :: argument ++ ')' :: rest) (by simp [same, source]) first name
  have gapSlice : IsSlice whole stop opening gap :=
    slice_at (front ++ identifier) ('(' :: argument ++ ')' :: rest) (by simp [same, source])
      (by rw [name, first, encode_length_append]) blanks
  have argumentSlice : IsSlice whole (opening + 1) closing argument :=
    slice_at (front ++ identifier ++ gap ++ ['(']) (')' :: rest) (by simp [same, source])
      (by simp only [blanks, name, first, encode_length_append, parens]) inside
  exact ⟨⟨nameSlice, gapSlice, argumentSlice, front, rest, same, first, width⟩, width⟩

theorem agrees_map {scanned : Except ByteFailure (List ByteCut)}
    {cut : Except TextFailure (List Fragment)} {mark : ByteCut} {fragment : Fragment}
    (same : whole = front ++ held ++ rest) (marks : Marks whole mark fragment)
    (agrees : Agrees whole scanned cut) :
    Agrees whole
      (scanned.map
        (plainCut (encode front).length (encode (front ++ held)).length ++ mark :: ·))
      (cut.map fun others => plainPart held ++ fragment :: others) := by
  match scanned, cut, agrees with
  | .ok _, .ok _, behind => exact List.rel_append (plain_marks same) (.cons marks behind)
  | .error (.unclosedCall _ _), .error (.unclosedCall _), failed => exact failed

end

/-- In the text as a whole `front` is cut already, and `held` is plain text that is not
cut off yet. -/
theorem scan_bytes_agrees (text whole front held : Text) (same : whole = front ++ held ++ text)
    (nameless : IsNameless held) :
    Agrees whole
      (scanBytes (encode front).length (encode (front ++ held)).length (encode text))
      (splitCalls (held ++ text)) := by
  induction text using cutting_induction generalizing front held with
  | empty =>
      have scanned (start pos : Nat) : scanBytes start pos [] = .ok (plainCut start pos) := by
        rw [scanBytes]
      have cut : splitCalls [] = .ok [] := by simp [splitCalls]
      rw [split_calls_held nameless rfl, cut]
      show Agrees whole (scanBytes _ _ []) (.ok (plainPart held ++ []))
      rw [scanned, List.append_nil]
      exact plain_marks same
  | plain symbol rest outside induction =>
      have skipped : ∀ byte ∈ String.utf8EncodeChar symbol, isStartByte byte = false :=
        fun byte member => (encodes_start symbol byte member).trans outside
      have width : (encode (front ++ held)).length + (String.utf8EncodeChar symbol).length =
          (encode (front ++ (held ++ [symbol]))).length := by
        rw [← List.append_assoc, encode_length_append (front ++ held), encode_cons]
        simp [encode]
      -- the bytes of the symbol are skipped one by one, and it joins what is held
      have longer : whole = front ++ (held ++ [symbol]) ++ rest := by simp [same]
      have behind := induction front (held ++ [symbol]) longer
        (nameless_append nameless (nameless_singleton outside))
      rw [encode_cons, scan_bytes_plain skipped, width]
      rwa [List.append_assoc] at behind
  | name identifier rest isName outside uncalled induction =>
      have width := encode_length_append (front ++ held) identifier
      have parts : whole = front ++ held ++ identifier ++ rest := by simp [same]
      have behind := induction (front ++ held ++ identifier) [] (by simpa using parts) nameless_nil
      rw [scan_bytes_identifier isName outside width,
        split_calls_held nameless (identifier_head isName rest),
        split_calls_identifier isName outside, continuation_bare uncalled]
      simp only [map_map_answer]
      rw [List.append_nil] at behind
      exact agrees_map same ⟨front ++ held, rest, parts, rfl, rfl⟩ behind
  | call identifier gap argument rest isName blanks balanced induction =>
      have source : identifier ++ gap ++ '(' :: argument ++ ')' :: rest =
          (Fragment.call identifier gap argument).source ++ rest := by simp [Fragment.source]
      have tail : identifier ++ gap ++ '(' :: argument ++ ')' :: rest =
          identifier ++ (gap ++ '(' :: argument ++ ')' :: rest) := by simp
      have outside := starts_outside_call blanks argument rest
      have parts : whole =
          front ++ held ++ (Fragment.call identifier gap argument).source ++ rest := by
        rw [same, source, List.append_assoc (front ++ held)]
      obtain ⟨marks, width⟩ := call_marks parts rfl rfl rfl rfl
      have behind := induction (front ++ held ++ (Fragment.call identifier gap argument).source) []
        (by simpa using parts) nameless_nil
      rw [List.append_nil, ← width] at behind
      rw [tail, scan_bytes_identifier isName outside rfl,
        split_calls_held nameless (identifier_head isName _),
        split_calls_identifier isName outside, continuation_closed blanks balanced]
      simp only [map_map_answer]
      exact agrees_map same marks behind
  | unclosed identifier rest unclosed =>
      obtain ⟨gap, inner, rfl, isName, blanks, unclosed⟩ := exists_of_unclosed unclosed
      have outside := starts_outside_gap blanks inner
      have width := encode_length_append (front ++ held) identifier
      rw [scan_bytes_identifier isName outside width,
        split_calls_held nameless (identifier_head isName _),
        split_calls_identifier isName outside, continuation_unclosed blanks unclosed]
      exact ⟨front ++ held, gap ++ '(' :: inner, by simp [same], rfl, rfl⟩

/-- A text is cut into its decomposition if it has one, and there is only one. A text
without one fails with the name of its first call that is not closed. The bytes of the
text are cut between its characters, into the same fragments. -/
theorem split_calls_grammar (text : Text) :
    (∀ fragments, splitCalls text = .ok fragments ↔ Decomposes text fragments) ∧
      (∀ first second, Decomposes text first → Decomposes text second → first = second) ∧
      (∀ cause, splitCalls text = .error cause ↔
        ∃ identifier, cause = .unclosedCall identifier ∧ IsFirstUnclosed identifier text) ∧
      Agrees text (scanBytes 0 0 (encode text)) (splitCalls text) := by
  refine ⟨split_calls_ok_iff text, ?_, split_calls_error_iff text, ?_⟩
  · intro first second one other
    have cut := split_calls_of_decomposes one
    rw [split_calls_of_decomposes other] at cut
    exact (Except.ok.inj cut).symm
  · exact scan_bytes_agrees text text [] [] rfl nameless_nil

theorem split_calls_grammar_open_call :
    (∀ fragments, Decomposes ['2', 'a', '+', 'f', ' ', '(', 'x', ')'] fragments →
      fragments = [.plain ['2'], .name ['a'], .plain ['+'], .call ['f'] [' '] ['x']]) ∧
    IsFirstUnclosed ['g'] ['f', '(', ')', 'g', '(', 'h', '('] := by
  constructor
  · intro fragments decomposed
    have grammar := split_calls_grammar ['2', 'a', '+', 'f', ' ', '(', 'x', ')']
    apply grammar.2.1 _ _ decomposed
    apply (grammar.1 _).1
    decide +kernel
  · have grammar := split_calls_grammar ['f', '(', ')', 'g', '(', 'h', '(']
    obtain ⟨name, same, first⟩ := (grammar.2.2.1 (.unclosedCall ['g'])).1 (by decide +kernel)
    rwa [TextFailure.unclosedCall.inj same]

example : scanBytes 0 0 (encode ['2', 'é', 'f', ' ', '(', 'x', ')']) =
    .ok [.plain 0 3, .call 3 4 5 7] := by decide +kernel

end InfixCalculator
