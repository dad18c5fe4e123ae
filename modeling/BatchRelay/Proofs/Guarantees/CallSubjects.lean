import BatchRelay.CallData
import BatchRelay.Proofs.Bytes.Spellings

/-!
# Calls and what they are about

The data of a transaction are read as a call exactly if they are the text of that
call to the base 64.  A subject is found exactly if the call has the function and
the arguments for it and names it in its first argument.
-/

namespace BatchRelay

namespace Call

/-- The text of a call: its function and its arguments, separated by `@`. -/
def text (call : Call) : String :=
  "@".intercalate (call.function :: call.arguments)

/-- The data that hold a call. -/
def encoded (call : Call) : String :=
  String.ofList (Base64.encode (Utf8.encode call.text))

/-- A call whose text has its parts.  Arguments may be empty. -/
structure Separable (call : Call) : Prop where
  named : call.function ≠ ""
  plain : ∀ part ∈ call.function :: call.arguments, '@' ∉ part.toList

theorem not_mem_of_mem_splitOn {text part : List Char}
    (member : part ∈ text.splitOn '@') : '@' ∉ part := by
  induction text generalizing part with
  | nil =>
      rw [List.splitOn_nil, List.mem_singleton] at member
      rw [member]
      exact List.not_mem_nil
  | cons first others induction =>
      rw [List.splitOn_cons_eq_if_modifyHead] at member
      split at member
      case isTrue =>
        obtain rfl | member := List.mem_cons.1 member
        · exact List.not_mem_nil
        · exact induction member
      case isFalse plain =>
        obtain ⟨head, tail, split⟩ :=
          List.exists_cons_of_ne_nil (List.splitOn_ne_nil '@' others)
        rw [split, List.modifyHead_cons] at member
        rw [split] at induction
        obtain rfl | member := List.mem_cons.1 member
        · rw [List.mem_cons, not_or]
          exact ⟨fun same => plain (beq_iff_eq.2 same.symm),
            induction List.mem_cons_self⟩
        · exact induction (List.mem_cons_of_mem head member)

theorem splitOn_eq_iff {text : List Char} {parts : List (List Char)}
    (nonempty : parts ≠ []) :
    text.splitOn '@' = parts ↔
      ['@'].intercalate parts = text ∧ ∀ part ∈ parts, '@' ∉ part := by
  constructor
  · rintro rfl
    exact ⟨List.intercalate_splitOn '@', fun part => not_mem_of_mem_splitOn⟩
  · intro makes
    obtain ⟨rfl, plain⟩ := makes
    exact List.splitOn_intercalate '@' plain nonempty

theorem parse?_eq_some_iff {data : String} {call : Call} :
    parse? data = some call ↔ call.Separable ∧ data = call.encoded := by
  have parts (text : String) :
      text.toList.splitOn '@' =
          call.function.toList :: call.arguments.map String.toList ↔
        call.text = text ∧ ∀ part ∈ call.function :: call.arguments, '@' ∉ part.toList := by
    rw [splitOn_eq_iff (List.cons_ne_nil _ _), ← String.toList_inj, Call.text,
      String.toList_intercalate, ← List.map_cons, List.forall_mem_map]
    rfl
  have holds (text : String) :
      Base64.decode? data.toList = some (Utf8.encode text) ↔
        data = String.ofList (Base64.encode (Utf8.encode text)) := by
    rw [Base64.decode?_eq_some_iff, ← String.toList_inj, String.toList_ofList]
  constructor
  · intro read
    simp only [parse?, Option.bind_eq_bind, Option.bind_eq_some_iff,
      Utf8.decode?_eq_some_iff] at read
    obtain ⟨_, isBase64, text, rfl, read⟩ := read
    split at read
    case h_2 => cases read
    case h_1 function arguments split =>
      split at read
      case isTrue => cases read
      case isFalse named =>
        cases read
        obtain ⟨rfl, plain⟩ := (parts text).1 (by simpa [Function.comp_def] using split)
        refine ⟨⟨?_, plain⟩, (holds _).1 isBase64⟩
        simpa only [Ne, String.ofList_eq_empty_iff] using named
  · intro encoded
    obtain ⟨separable, isData⟩ := encoded
    have split := (parts call.text).2 ⟨rfl, separable.plain⟩
    have named : call.function.toList ≠ [] := by
      rw [Ne, String.toList_eq_nil_iff]
      exact separable.named
    simp only [parse?, (holds call.text).2 isData, Option.bind_eq_bind,
      Option.bind_some, Utf8.decode?_eq_some_iff.2 rfl, split, if_neg named]
    simp [Function.comp_def]

example : parse? "ZkBA" = some ⟨"f", ["", ""]⟩ := by
  decide +kernel

end Call

namespace Subject

/-- The function whose calls are about such a subject. -/
def function : Subject → String
  | nftCreate _ => "ESDTNFTCreate"
  | sftChange _ => "changeSFTToMetaESDT"
  | transferOwnership _ => "transferOwnership"
  | controlChanges _ => "controlChanges"

/-- The number of arguments that such calls have at least. -/
def leastArguments : Subject → Nat
  | nftCreate _ => 6
  | transferOwnership _ => 2
  | _ => 1

/-- Whether only calls of the sender to itself count. -/
def ownCallsOnly : Subject → Bool
  | nftCreate _ => true
  | _ => false

/-- The collection or the token. -/
def name : Subject → String
  | nftCreate name | sftChange name | transferOwnership name | controlChanges name => name

/-- A hexadecimal text of a name, its letters in either case. -/
structure Names (argument name : String) : Prop where
  nonempty : name ≠ ""
  spelled : argument.toList.map Char.toLower = Hex.encode (Utf8.encode name)

/-- A transaction that calls the function of a subject with the name of the
subject as the first argument. -/
structure CalledBy (subject : Subject) (transaction : ObservedTransaction) (call : Call) :
    Prop where
  read : transaction.data.bind Call.parse? = some call
  function : call.function = subject.function
  own : subject.ownCallsOnly → transaction.sender = transaction.receiver
  enough : subject.leastArguments ≤ call.arguments.length
  named : ∃ argument, call.arguments.head? = some argument ∧
    Names argument subject.name

theorem named?_eq_some_iff {argument name : String} :
    named? argument = some name ↔ Names argument name := by
  simp only [named?, Option.bind_eq_bind, Option.bind_eq_some_iff,
    Hex.decode?_eq_some_iff, Utf8.decode?_eq_some_iff, Option.pure_def,
    Option.ite_none_left_eq_some, Option.some.injEq]
  constructor
  · intro read
    obtain ⟨_, spelled, _, rfl, nonempty, rfl⟩ := read
    exact ⟨nonempty, spelled⟩
  · intro names
    exact ⟨_, names.spelled, name, rfl, names.nonempty, rfl⟩

theorem firstOf?_eq_some_iff {least : Nat} {arguments : List String} {name : String} :
    firstOf? least arguments = some name ↔
      least ≤ arguments.length ∧
        ∃ argument, arguments.head? = some argument ∧ Names argument name := by
  unfold firstOf?
  by_cases few : arguments.length < least
  · have notEnough := Nat.not_le_of_lt few
    simp [few, notEnough]
  · have enough := Nat.le_of_not_lt few
    simp [few, enough, Option.bind_eq_some_iff, named?_eq_some_iff]

/-- Each subject is found by the rule of its own function. -/
theorem ofCall?_eq_some_iff {transaction : ObservedTransaction} {call : Call}
    {subject : Subject} :
    ofCall? transaction call = some subject ↔
      call.function = subject.function ∧
        (subject.ownCallsOnly → transaction.sender = transaction.receiver) ∧
        firstOf? subject.leastArguments call.arguments = some subject.name := by
  unfold ofCall?
  split
  case h_1 called =>
    split
    all_goals cases subject <;> simp_all [function, ownCallsOnly, leastArguments, name]
  all_goals cases subject <;> simp_all [function, ownCallsOnly, leastArguments, name]

/-- Calls and subjects are read exactly where they are written. -/
theorem calls_read_exactly :
    (∀ data call, Call.parse? data = some call ↔ call.Separable ∧ data = call.encoded) ∧
      ∀ transaction subject,
        of? transaction = some subject ↔ ∃ call, subject.CalledBy transaction call := by
  refine ⟨fun data call => Call.parse?_eq_some_iff, ?_⟩
  intro transaction subject
  simp only [of?, Option.bind_eq_bind, ← Option.bind_assoc]
  rw [Option.bind_eq_some_iff]
  constructor
  · intro found
    obtain ⟨call, read, isSubject⟩ := found
    obtain ⟨isFunction, own, first⟩ := ofCall?_eq_some_iff.1 isSubject
    obtain ⟨enough, named⟩ := firstOf?_eq_some_iff.1 first
    exact ⟨call, read, isFunction, own, enough, named⟩
  · intro called
    obtain ⟨call, calls⟩ := called
    exact ⟨call, calls.read, ofCall?_eq_some_iff.2 ⟨calls.function, calls.own,
      firstOf?_eq_some_iff.2 ⟨calls.enough, calls.named⟩⟩⟩

end Subject

end BatchRelay
