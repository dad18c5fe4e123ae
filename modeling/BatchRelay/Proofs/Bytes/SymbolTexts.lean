import BatchRelay.Proofs.Bytes.BitRuns
import BatchRelay.Proofs.Bytes.Checksums

/-!
# Texts with a checksum

A readable part in lower case fixes the case of all letters after it.  Such texts
are read exactly if they are made by `text`, from one of the accepted remainders and
from any payload.
-/

namespace BatchRelay

namespace Bech32

/-- The symbol of a value in lower case. -/
def symbol (value : Nat) : Char :=
  alphabet.getD value 'q'

/-- The text of a payload with the checksum that leaves a given remainder. -/
def text (target : UInt32) (readable : List Char) (payload : List Nat) : List Char :=
  readable ++ '1' :: (payload ++ checksum target readable payload).map symbol

/-! ## Symbols -/

theorem symbolValue?_symbol {value : Nat} (small : value < 32) :
    symbolValue? (symbol value) = some value := by
  revert value
  decide +kernel

theorem symbol_lower {value : Nat} (small : value < 32) :
    (symbol value).isUpper = false ∧ symbol value ≠ '1' := by
  revert value
  decide +kernel

theorem toLower_eq_of_not_upper {character : Char} (lower : character.isUpper = false) :
    character.toLower = character :=
  dif_neg (of_decide_eq_false lower)

theorem symbolValue?_eq_some_iff {character : Char} (lower : character.isUpper = false)
    {value : Nat} :
    symbolValue? character = some value ↔ value < 32 ∧ character = symbol value := by
  constructor
  · intro found
    rw [symbolValue?, toLower_eq_of_not_upper lower] at found
    obtain ⟨small, isSymbol, -⟩ := List.idxOf?_eq_some_iff.1 found
    refine ⟨small, ?_⟩
    rw [symbol, List.getD_eq_getElem?_getD, List.getElem?_eq_getElem small,
      Option.getD_some, isSymbol]
  · intro isSymbol
    obtain ⟨small, rfl⟩ := isSymbol
    exact symbolValue?_symbol small

theorem mapM_symbolValue?_eq_some_iff {data : List Char}
    (lower : ∀ character ∈ data, character.isUpper = false) {symbols : List Nat} :
    data.mapM symbolValue? = some symbols ↔
      (∀ value ∈ symbols, value < 32) ∧ data = symbols.map symbol := by
  induction data generalizing symbols with
  | nil =>
      cases symbols with
      | nil => simp
      | cons value values => simp
  | cons character data induction =>
      obtain ⟨first, others⟩ := List.forall_mem_cons.1 lower
      simp only [List.mapM_cons, Option.bind_eq_bind, Option.bind_eq_some_iff,
        symbolValue?_eq_some_iff first, induction others, Option.pure_def,
        Option.some.injEq]
      constructor
      · intro read
        obtain ⟨value, ⟨small, rfl⟩, values, ⟨allSmall, rfl⟩, rfl⟩ := read
        exact ⟨List.forall_mem_cons.2 ⟨small, allSmall⟩, rfl⟩
      · intro spelled
        obtain ⟨small, spelled⟩ := spelled
        cases symbols with
        | nil => cases spelled
        | cons value values =>
            obtain ⟨valueSmall, valuesSmall⟩ := List.forall_mem_cons.1 small
            rw [List.map_cons, List.cons.injEq] at spelled
            exact ⟨value, ⟨valueSmall, spelled.1⟩, values, ⟨valuesSmall, spelled.2⟩, rfl⟩

theorem map_symbol_lower {values : List Nat} (small : ∀ value ∈ values, value < 32) :
    ∀ character ∈ values.map symbol, character.isUpper = false ∧ character ≠ '1' :=
  List.forall_mem_map.2 fun value member => symbol_lower (small value member)

theorem mapM_map_symbol {values : List Nat} (small : ∀ value ∈ values, value < 32) :
    (values.map symbol).mapM symbolValue? = some values :=
  (mapM_symbolValue?_eq_some_iff fun character member =>
    (map_symbol_lower small character member).1).2 ⟨small, rfl⟩

theorem map_symbol_inj {left right : List Nat} (leftSmall : ∀ value ∈ left, value < 32)
    (rightSmall : ∀ value ∈ right, value < 32)
    (same : left.map symbol = right.map symbol) : left = right := by
  have values := mapM_map_symbol leftSmall
  rw [same, mapM_map_symbol rightSmall] at values
  exact (Option.some.inj values).symm

/-! ## The separator -/

/-- The last separator is the one with no separator after it. -/
theorem separate?_eq_some_iff {text readable data : List Char} :
    separate? text = some (readable, data) ↔
      text = readable ++ '1' :: data ∧ '1' ∉ data := by
  have plain (character : Char) : decide (character ≠ '1') = true ↔ character ≠ '1' :=
    decide_eq_true_iff
  constructor
  · intro split
    simp only [separate?, Option.ite_none_right_eq_some, Option.some.injEq,
      Prod.mk.injEq] at split
    obtain ⟨shorter, atFront, atBack⟩ := split
    have back : text.reverse.takeWhile (· ≠ '1') = data.reverse := by
      rw [← atBack, List.reverse_reverse]
    have noSeparator : '1' ∉ data := by
      intro member
      rw [← List.mem_reverse, ← back] at member
      have all : (text.reverse.takeWhile (· ≠ '1')).all (· ≠ '1') = true :=
        List.all_takeWhile
      exact (plain '1').1 (List.all_eq_true.1 all '1' member) rfl
    rw [atBack] at shorter atFront
    have parts : text.reverse.takeWhile (· ≠ '1') ++
        text.reverse.dropWhile (· ≠ '1') = text.reverse :=
      List.takeWhile_append_dropWhile
    rw [back] at parts
    match front : text.reverse.dropWhile (· ≠ '1') with
    | [] =>
        rw [front, List.append_nil, List.reverse_inj] at parts
        simp [parts] at shorter
    | character :: rest =>
        have stops := List.head?_dropWhile_not (· ≠ '1') text.reverse
        rw [front] at parts stops
        have separator : character = '1' := by simpa using stops
        subst separator
        have whole : text = rest.reverse ++ '1' :: data := by
          simpa using (congrArg List.reverse parts).symm
        have length : text.length - data.length - 1 = rest.reverse.length := by
          rw [whole, List.length_append, List.length_cons]
          omega
        rw [length, whole, List.take_left] at atFront
        exact ⟨atFront ▸ whole, noSeparator⟩
  · intro split
    obtain ⟨rfl, noSeparator⟩ := split
    have back : (readable ++ '1' :: data).reverse.takeWhile (· ≠ '1') = data.reverse := by
      have others : ∀ character ∈ data.reverse, decide (character ≠ '1') = true := by
        intro character member
        refine (plain character).2 fun same => noSeparator ?_
        rwa [same, List.mem_reverse] at member
      rw [List.reverse_append, List.reverse_cons, List.append_assoc,
        List.takeWhile_append_of_pos others]
      simp
    have length : (readable ++ '1' :: data).length - data.length - 1 = readable.length := by
      rw [List.length_append, List.length_cons]
      omega
    have shorter : data.length < (readable ++ '1' :: data).length := by
      rw [List.length_append, List.length_cons]
      omega
    simp only [separate?, back, List.reverse_reverse, length, List.take_left, if_pos shorter]

/-! ## Texts -/

theorem accepted_fits {target : UInt32} (isAccepted : target ∈ accepted) :
    target.toNat < 2 ^ 30 := by
  have all : accepted.all (fun target => target.toNat < 2 ^ 30) = true := by decide
  exact of_decide_eq_true (List.all_eq_true.1 all target isAccepted)

theorem remainder_checksum {target : UInt32} (isAccepted : target ∈ accepted)
    (readable : List Char) (payload : List Nat) :
    remainder readable (payload ++ checksum target readable payload) = target :=
  (remainder_append_eq_iff (accepted_fits isAccepted)
    (length_checksum target readable payload)
    (checksum_small target readable payload)).2 rfl

theorem take_payload (target : UInt32) (readable : List Char) (payload : List Nat) :
    (payload ++ checksum target readable payload).take
      ((payload ++ checksum target readable payload).length - 6) = payload := by
  rw [List.length_append, length_checksum, Nat.add_sub_cancel, List.take_left]

/-- Symbols leave an accepted remainder exactly if a checksum is at their end. -/
theorem remainder_mem_accepted_iff {readable : List Char} {symbols : List Nat}
    (small : ∀ value ∈ symbols, value < 32) :
    6 ≤ symbols.length ∧ remainder readable symbols ∈ accepted ↔
      ∃ target ∈ accepted, ∃ payload,
        symbols = payload ++ checksum target readable payload := by
  constructor
  · intro ends
    obtain ⟨enough, isAccepted⟩ := ends
    have whole := List.take_append_drop (symbols.length - 6) symbols
    have six : (symbols.drop (symbols.length - 6)).length = 6 := by
      rw [List.length_drop]
      omega
    have sumsSmall : ∀ value ∈ symbols.drop (symbols.length - 6), value < 32 :=
      fun value member => small value (List.mem_of_mem_drop member)
    have isChecksum := (remainder_append_eq_iff (accepted_fits isAccepted) six sumsSmall).1
      (congrArg (remainder readable) whole)
    exact ⟨_, isAccepted, symbols.take (symbols.length - 6), isChecksum ▸ whole.symm⟩
  · intro ends
    obtain ⟨target, isAccepted, payload, rfl⟩ := ends
    rw [List.length_append, length_checksum, remainder_checksum isAccepted]
    exact ⟨Nat.le_add_left 6 _, isAccepted⟩

theorem mixedCase_eq_false_iff {text : List Char} (hasLower : text.any Char.isLower = true) :
    mixedCase text = false ↔ ∀ character ∈ text, character.isUpper = false := by
  rw [mixedCase, hasLower, Bool.and_true, List.any_eq_false]
  simp only [Bool.not_eq_true]

/-- What a text needs so that it is read. -/
theorem decode?_eq_some {text readable : List Char} {bytes : List UInt8} :
    decode? text = some (readable, bytes) ↔
      ∃ data symbols, separate? text = some (readable, data) ∧
        data.mapM symbolValue? = some symbols ∧ mixedCase text = false ∧
        readableOk readable = true ∧ text.length ≤ longest ∧
        (6 ≤ symbols.length ∧ remainder readable symbols ∈ accepted) ∧
        bytesOfBits ((symbols.take (symbols.length - 6)).flatMap symbolBits) = bytes := by
  simp only [decode?, Option.bind_eq_bind, Option.bind_eq_some_iff, Prod.exists,
    Option.ite_none_left_eq_some, Option.pure_def, Option.some.injEq, Prod.mk.injEq,
    Bool.or_eq_true, not_or, Bool.not_eq_true, Bool.not_eq_eq_eq_not, decide_eq_true_eq,
    Bool.not_true, Bool.not_eq_false, Nat.not_lt, List.contains_iff_mem]
  constructor
  · intro decoded
    obtain ⟨_, data, split, symbols, read,
      ⟨⟨⟨⟨lower, isReadable⟩, fits⟩, enough⟩, isAccepted⟩, rfl, isBytes⟩ := decoded
    exact ⟨data, symbols, split, read, lower, isReadable, fits, ⟨enough, isAccepted⟩,
      isBytes⟩
  · intro needs
    obtain ⟨data, symbols, split, read, lower, isReadable, fits, ⟨enough, isAccepted⟩,
      isBytes⟩ := needs
    exact ⟨readable, data, split, symbols, read,
      ⟨⟨⟨⟨lower, isReadable⟩, fits⟩, enough⟩, isAccepted⟩, rfl, isBytes⟩

/-- Texts with a readable part in lower case are read exactly if they have an accepted
checksum and no more than the longest length. -/
theorem decode?_eq_some_iff {text readable : List Char} {bytes : List UInt8}
    (isReadable : readableOk readable = true) (hasLower : readable.any Char.isLower = true)
    (noUpper : readable.any Char.isUpper = false) :
    decode? text = some (readable, bytes) ↔
      text.length ≤ longest ∧
        ∃ target ∈ accepted, ∃ payload : List Nat, (∀ value ∈ payload, value < 32) ∧
          text = Bech32.text target readable payload ∧
            bytesOfBits (payload.flatMap symbolBits) = bytes := by
  have plain : ∀ character ∈ readable, character.isUpper = false := by
    simpa only [List.any_eq_false, Bool.not_eq_true] using noUpper
  have lowerText (data : List Char) :
      (readable ++ '1' :: data).any Char.isLower = true := by
    rw [List.any_append, hasLower, Bool.true_or]
  rw [decode?_eq_some]
  constructor
  · intro needs
    obtain ⟨data, symbols, split, read, oneCase, -, fits, ends, isBytes⟩ := needs
    obtain ⟨rfl, -⟩ := separate?_eq_some_iff.1 split
    -- The readable part has a letter in lower case, so no letter of the data is upper.
    have lower : ∀ character ∈ data, character.isUpper = false := fun character member =>
      (mixedCase_eq_false_iff (lowerText data)).1 oneCase character
        (List.mem_append_right _ (List.mem_cons_of_mem _ member))
    obtain ⟨small, rfl⟩ := (mapM_symbolValue?_eq_some_iff lower).1 read
    obtain ⟨target, isAccepted, payload, rfl⟩ := (remainder_mem_accepted_iff small).1 ends
    rw [take_payload] at isBytes
    exact ⟨fits, target, isAccepted, payload, (List.forall_mem_append.1 small).1, rfl,
      isBytes⟩
  · intro spelled
    obtain ⟨fits, target, isAccepted, payload, payloadSmall, rfl, isBytes⟩ := spelled
    have small := List.forall_mem_append.2
      ⟨payloadSmall, checksum_small target readable payload⟩
    have lower := map_symbol_lower small
    have split : separate? (Bech32.text target readable payload) =
        some (readable, (payload ++ checksum target readable payload).map symbol) :=
      separate?_eq_some_iff.2 ⟨rfl, fun member => (lower _ member).2 rfl⟩
    have oneCase : mixedCase (Bech32.text target readable payload) = false := by
      rw [Bech32.text, mixedCase_eq_false_iff (lowerText _), List.forall_mem_append,
        List.forall_mem_cons]
      exact ⟨plain, by decide, fun character member => (lower character member).1⟩
    have ends := (remainder_mem_accepted_iff small).2 ⟨target, isAccepted, payload, rfl⟩
    rw [← take_payload target readable payload] at isBytes
    exact ⟨_, _, split, mapM_map_symbol small, oneCase, isReadable, fits, ends, isBytes⟩

theorem length_text (target : UInt32) (readable : List Char) (payload : List Nat) :
    (text target readable payload).length = readable.length + payload.length + 7 := by
  rw [text, List.length_append, List.length_cons, List.length_map, List.length_append,
    length_checksum]
  omega

/-- A text has its remainder and its payload back. -/
theorem text_inj {left right : UInt32} (leftAccepted : left ∈ accepted)
    (rightAccepted : right ∈ accepted) {readable : List Char}
    {leftPayload rightPayload : List Nat}
    (leftSmall : ∀ value ∈ leftPayload, value < 32)
    (rightSmall : ∀ value ∈ rightPayload, value < 32)
    (same : text left readable leftPayload = text right readable rightPayload) :
    left = right ∧ leftPayload = rightPayload := by
  have symbols : leftPayload ++ checksum left readable leftPayload =
      rightPayload ++ checksum right readable rightPayload := by
    refine map_symbol_inj
      (List.forall_mem_append.2 ⟨leftSmall, checksum_small left readable leftPayload⟩)
      (List.forall_mem_append.2 ⟨rightSmall, checksum_small right readable rightPayload⟩) ?_
    exact (List.cons.inj (List.append_cancel_left same)).2
  refine ⟨?_, (List.append_inj' symbols ?_).1⟩
  · rw [← remainder_checksum leftAccepted readable leftPayload, symbols,
      remainder_checksum rightAccepted]
  · rw [length_checksum, length_checksum]

end Bech32

end BatchRelay
