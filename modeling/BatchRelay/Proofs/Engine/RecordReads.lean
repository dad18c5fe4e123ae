import BatchRelay.Proofs.Cache.Operations
import BatchRelay.Proofs.Engine.Runs

/-!
# What reads of records find

Which batches are stored is a matter of the entries of a cache and not of their
keys, and whose they are is a matter of their transactions.  In the worlds of a
run every record lies under the key that is made of its sender and its
identifier, so a read finds it when the key that it asks for is that one.
-/

namespace BatchRelay

theorem Address.plain_of_decode {address : String} {publicKey : List UInt8}
    (decoded : decode address = .ok publicKey) : '\x00' ∉ address.toList :=
  not_mem_of_decode decoded (by decide) (by decide) (by decide)

theorem Records.isKey_of_leads {address key : String}
    (leads : Pieces.leads (Records.key address "") key = true) :
    isKey key = true := by
  simp only [isKey, Pieces.leads, List.isPrefixOf_iff_prefix] at leads ⊢
  refine List.IsPrefix.trans ?_ leads
  simp [Records.key]

/-- A key tells its address when no address holds a colon. -/
theorem Records.leads_key_iff {address sender id : String}
    (single : ':' ∉ address.toList) (clean : Address.Clean sender) :
    Pieces.leads (key address "") (key sender id) = true ↔ sender = address := by
  simp only [Pieces.leads, List.isPrefixOf_iff_prefix]
  constructor
  · rintro ⟨rest, same⟩
    simp only [key, String.toList_append, List.append_assoc] at same
    have fields := Pieces.field_inj clean.1 single
      (List.append_cancel_left same).symm
    exact String.toList_inj.1 fields.1
  · intro same
    subst same
    simp [key]

/-- Some record holds this batch. -/
def World.Holds (world : World) (batch : Batch) : Prop :=
  ∃ key entry, (key, entry) ∈ world.cache.entries ∧
    Records.isKey key = true ∧ Batch.parse entry.value = .ok batch

/-- Reads of records fail no more, and no record has run out of time. -/
structure Surroundings.Readable (surroundings : Surroundings) (world : World) :
    Prop where
  works : ∀ moment, world.moment ≤ moment →
    ∀ access, surroundings.fault moment access = none
  lasting : ∀ moment, world.moment ≤ moment → ∀ key entry,
    (key, entry) ∈ world.cache.entries → Records.isKey key = true →
    entry.isLive (surroundings.now moment).toMillis = true

theorem Surroundings.Readable.value? {surroundings : Surroundings} {world : World}
    (readable : surroundings.Readable world) (unique : world.cache.entries.Unique)
    {moment : Nat} (order : world.moment ≤ moment) {key value : String}
    (isRecord : Records.isKey key = true) :
    world.cache.get (surroundings.now moment).toMillis key = some value ↔
      ∃ entry, (key, entry) ∈ world.cache.entries ∧ entry.value = value := by
  rw [Cache.get_eq_some_iff unique]
  apply exists_congr
  intro entry
  constructor
  · intro ⟨member, _, valued⟩
    exact ⟨member, valued⟩
  · intro ⟨member, valued⟩
    exact ⟨member, readable.lasting moment order key entry member isRecord, valued⟩

/-! ## Records under their own keys -/

theorem Records.key_eq_iff {address address' id id' : String} :
    key address id = key address' id' ↔
      address ++ ":" ++ id = address' ++ ":" ++ id' := by
  constructor
  · intro same
    simp only [key, String.append_assoc] at same
    simpa only [String.append_assoc] using Pieces.append_cancel same
  · intro same
    simp only [key, String.append_assoc] at same ⊢
    rw [same]

namespace World.Sound

variable {surroundings : Surroundings} {world : World} {batch : Batch}
  {address id : String}

/-- A batch that is held lies under the key that its sender and its identifier
make. -/
theorem holds_iff (sound : world.Sound []) :
    world.Holds batch ↔ ∃ sender entry, batch.Proper sender ∧
      (Records.key sender batch.id, entry) ∈ world.cache.entries ∧
      entry.value = batch.render := by
  constructor
  · intro ⟨key, entry, member, isRecord, parsed⟩
    obtain ⟨sender, found, proper, same, rendered⟩ :=
      (sound.genuine key entry member).record isRecord
    rw [rendered, Batch.parse_render] at parsed
    cases parsed
    exact ⟨sender, entry, proper, same ▸ member, rendered⟩
  · intro ⟨sender, entry, proper, member, rendered⟩
    refine ⟨_, entry, member, Records.isKey_key _ _, ?_⟩
    rw [rendered, Batch.parse_render]

variable (sound : world.Sound []) (readable : surroundings.Readable world)

include sound readable

/-- What is stored under an address and an identifier is the batch whose sender
and identifier make the same key. -/
theorem stored?_eq_some_iff :
    surroundings.stored? world address id = some batch ↔
      world.Holds batch ∧ ∃ sender, batch.address? = some sender ∧
        sender ++ ":" ++ batch.id = address ++ ":" ++ id := by
  have find (text : String) : surroundings.value? world (Records.key address id) =
      some text ↔ ∃ entry, (Records.key address id, entry) ∈ world.cache.entries ∧
        entry.value = text :=
    readable.value? sound.unique (Nat.le_refl _) (Records.isKey_key address id)
  constructor
  · intro stored
    obtain ⟨owner, found, proper, same, -, again⟩ :=
      sound.stored_of_value (sound.value_of_stored stored)
    rw [stored] at again
    cases again
    obtain ⟨entry, member, rendered⟩ := (find _).1 (sound.value_of_stored stored)
    exact ⟨sound.holds_iff.2 ⟨owner, entry, proper, same ▸ member, rendered⟩,
      owner, proper.sender, (Records.key_eq_iff.1 same).symm⟩
  · intro ⟨held, sender, isSender, same⟩
    obtain ⟨owner, entry, proper, member, rendered⟩ := sound.holds_iff.1 held
    rw [proper.sender] at isSender
    cases isSender
    rw [Records.key_eq_iff.2 same] at member
    have read : surroundings.value? world (Records.key address id) =
        some batch.render := (find _).2 ⟨entry, member, rendered⟩
    rw [Surroundings.stored?, read, Option.bind_some, Batch.parse_render]
    rfl

/-- Under an address without a colon, that is its own batch. -/
theorem stored?_eq_some_iff_of_single (single : ':' ∉ address.toList) :
    surroundings.stored? world address id = some batch ↔
      world.Holds batch ∧ batch.address? = some address ∧ batch.id = id := by
  rw [sound.stored?_eq_some_iff readable]
  apply and_congr_right
  intro held
  obtain ⟨owner, _, proper, -, -⟩ := sound.holds_iff.1 held
  constructor
  · intro ⟨sender, isSender, same⟩
    cases proper.sender.symm.trans isSender
    have characters := congrArg String.toList same
    simp only [String.toList_append, List.append_assoc] at characters
    have fields := Pieces.field_inj proper.clean.1 single characters
    cases String.toList_inj.1 fields.1
    exact ⟨isSender, String.toList_inj.1 fields.2⟩
  · intro ⟨isSender, same⟩
    exact ⟨address, isSender, same ▸ rfl⟩

theorem run_get :
    (surroundings.run (Records.get address id) world).1 =
      .ok (surroundings.stored? world address id) := by
  have works := readable.works world.moment (Nat.le_refl _)
    (.read (Records.key address id))
  cases stored : surroundings.stored? world address id with
  | some batch => exact Surroundings.get_eq_some_iff.2 ⟨works, stored⟩
  | none =>
      apply Surroundings.get_eq_none_iff.2
      refine ⟨works, ?_⟩
      rw [Option.eq_none_iff_forall_ne_some]
      intro text read
      obtain ⟨_, found, -, -, -, again⟩ := sound.stored_of_value read
      rw [stored] at again
      cases again

end World.Sound

/-! ## Senders of stored batches -/

/-- The address in the key of a record holds no NUL character. -/
def World.PlainSenders (world : World) : Prop :=
  ∀ sender id entry, (Records.key sender id, entry) ∈ world.cache.entries →
    Address.Clean sender → '\x00' ∉ sender.toList

/-- A request that writes no record under the key of another address. -/
def Request.WritesPlain (request : Request) : Prop :=
  ∀ sender id value, request.written? = some (Records.key sender id, value) →
    Address.Clean sender → '\x00' ∉ sender.toList

theorem Request.WritesPlain.ofUntracked {request : Request}
    (untracked : ∀ key value, request.written? = some (key, value) →
      Records.isKey key = false) : request.WritesPlain := by
  intro sender id value written
  have isRecord := untracked _ value written
  rw [Records.isKey_key] at isRecord
  cases isRecord

theorem Request.WritesPlain.ofRecord {address : String}
    (clean : Address.Clean address) (plain : '\x00' ∉ address.toList)
    (id value : String) (ttl : Option Nat) :
    WritesPlain (.write (Records.key address id) value ttl) := by
  intro sender other _ written cleanSender
  simp only [written?, Option.some.injEq, Prod.mk.injEq] at written
  exact (Records.key_inj clean cleanSender written.1).1 ▸ plain

theorem Request.Sends.writesPlain {lifetimes : Lifetimes} {address id : String}
    {group : Nat} {request : Request}
    (sends : request.Sends lifetimes address id group) : request.WritesPlain := by
  apply WritesPlain.ofUntracked
  intro key value written
  cases sends with
  | write =>
      cases written
      exact Records.isKey_routeKey _
  | _ => cases written

namespace Surroundings

variable {surroundings : Surroundings} {lifetimes : Lifetimes}
  {world last : World} {steps : List Step} {step : Step}

theorem plainSenders_after (plain : step.world.PlainSenders)
    (writes : step.request.WritesPlain) :
    (surroundings.after step).PlainSenders := by
  intro sender id entry member clean
  obtain before | written := mem_after_cases member
  · exact plain sender id entry before clean
  · exact writes sender id entry.value written clean

theorem Offered.plain {request : BatchRequest} {address : String}
    {batch batch' : Batch}
    (offered : surroundings.Offered lifetimes request world address batch batch'
      steps last) : '\x00' ∉ address.toList := by
  obtain ⟨item, found⟩ :=
    offered.proper.item_of_group offered.proper.length_pos
  have hashed := (offered.admits.fresh.item _ item found).2
  obtain ⟨publicKey, decoded⟩ := BatchRequest.Transaction.sender_decodes hashed
  have isSender := (Batch.address?_of_item? found).symm.trans offered.proper.sender
  cases isSender
  exact Address.plain_of_decode decoded

theorem Reconciling.writesPlain {routes : List (String × Route)}
    {hash batchId address : String} {outcome : ItemStatus}
    (plain : world.PlainSenders) (sound : world.Sound routes)
    (clean : Address.Clean address)
    (reconciling : surroundings.Reconciling lifetimes hash batchId address outcome
      world steps last) :
    ∀ step ∈ steps, step.request.WritesPlain := by
  have aside {request : Request} (unwritten : request.written? = none) :
      request.WritesPlain :=
    .ofUntracked fun key value written => by simp [unwritten] at written
  cases reconciling with
  | skipped =>
      simp only [List.forall_mem_cons, List.not_mem_nil, false_implies,
        implies_true, and_true]
      exact ⟨aside rfl, aside rfl⟩
  | applied applied =>
      obtain ⟨entry, member, -⟩ := (value?_eq_some_iff sound.unique).1
        (sound.value_of_stored applied.stored)
      have plainSender := plain address batchId entry member clean
      simp only [List.forall_mem_cons, List.forall_mem_append, List.not_mem_nil,
        false_implies, implies_true, and_true]
      exact ⟨aside rfl,
        fun step member => (applied.followed.sends step member).writesPlain,
        .ofRecord clean plainSender _ _ _, aside rfl⟩

theorem Submitting.writesPlain {request : BatchRequest}
    (submitting : surroundings.Submitting lifetimes request world steps last) :
    ∀ step ∈ steps, step.request.WritesPlain := by
  have aside {request : Request} (unwritten : request.written? = none) :
      request.WritesPlain :=
    .ofUntracked fun key value written => by simp [unwritten] at written
  cases submitting with
  | malformed => exact List.forall_mem_nil _
  | rejected => exact List.forall_mem_singleton.2 (aside rfl)
  | refused offered =>
      exact List.forall_mem_cons.2 ⟨aside rfl,
        fun step member => (offered.sent.sends step member).writesPlain⟩
  | stored offered =>
      simp only [List.forall_mem_cons, List.forall_mem_append, List.not_mem_nil,
        false_implies, implies_true, and_true]
      exact ⟨aside rfl,
        fun step member => (offered.sent.sends step member).writesPlain,
        .ofRecord offered.proper.clean offered.plain _ _ _⟩

theorem invariant_plainSenders :
    Invariant surroundings lifetimes (fun _ => True)
      fun _ _ world => world.PlainSenders where
  aside _ plain _ isAside := by
    refine plainSenders_after plain (.ofUntracked fun key value written => ?_)
    cases tracked : isTracked key with
    | true =>
        exact absurd (Request.touched?_of_written? written)
          (Request.touched?_of_isAside isAside tracked)
    | false =>
        simp only [isTracked, Bool.or_eq_false_iff] at tracked
        exact tracked.1
  found _ plain _ := plain
  forgotten plain := plain
  reconciled sound plain member _ reconciling _ :=
    reconciling.linked.keeps World.PlainSenders plain fun step inSteps held =>
      plainSenders_after held
        (reconciling.writesPlain plain sound (sound.found _ member).address step
          inSteps)
  submitted _ plain submitting _ :=
    submitting.linked.keeps World.PlainSenders plain fun step inSteps held =>
      plainSenders_after held (submitting.writesPlain step inSteps)

end Surroundings

/-- Every run ends in a sound world whose records belong to decodable senders. -/
theorem Run.sound_final (run : Run) :
    run.final.Sound [] ∧ run.final.PlainSenders := by
  refine run.holds Surroundings.invariant_plainSenders ?_ fun _ _ => trivial
  intro sender id entry member
  simp [start, World.start, run.empty] at member

/-! ## Lists -/

namespace Surroundings

variable {surroundings : Surroundings} {world : World} {batch : Batch}
  {address : String}

/-- The batches whose keys a scan finds, in the order of the keys. -/
def listed (surroundings : Surroundings) (world : World) (address : String) :
    List Batch :=
  (world.cache.keys (surroundings.millis world) (Records.key address "")).filterMap
    fun key => (world.cache.get (surroundings.now (world.moment + 1)).toMillis
      key).bind fun text => (Batch.parse text).toOption

theorem toOption_decode (text : String) :
    (Records.decode text).toOption = (Batch.parse text).toOption := by
  unfold Records.decode
  split
  all_goals simp [*, Except.toOption]

theorem Readable.run_list (readable : surroundings.Readable world) :
    (surroundings.run (Records.list address) world).1 =
      .ok (surroundings.listed world address) := by
  have scanned : surroundings.answer world (.scan (Records.key address "")) =
      (.ok (world.cache.keys (surroundings.millis world) (Records.key address "")),
        world.pass) := by
    rw [answer, access_works (readable.works world.moment (Nat.le_refl _) _)]
    rfl
  have reads (keys : List String) : keys.findSome? (fun key =>
      surroundings.fault world.pass.moment (.read key)) = none :=
    List.findSome?_eq_none_iff.2 fun key _ =>
      readable.works _ (Nat.le_succ _) (.read key)
  have found (keys : List String) : (surroundings.answer world.pass
      (.readMany keys)).1 = .ok (keys.map fun key =>
        world.cache.get (surroundings.now (world.moment + 1)).toMillis key) := by
    simp only [answer, reads, Cache.getMany_eq]
    rfl
  simp only [Records.list, Activity.request, Bind.bind, Pure.pure, Activity.bind,
    run, scanned, found, listed, List.filterMap_map, Function.comp_def,
    toOption_decode]

end Surroundings

namespace World.Sound

variable {surroundings : Surroundings} {world : World} {batch : Batch}
  {address : String} (sound : world.Sound [])
  (readable : surroundings.Readable world)

include sound readable

theorem found_of_key (single : ':' ∉ address.toList) {key text : String}
    (scanned : key ∈ world.cache.keys (surroundings.millis world)
      (Records.key address ""))
    (read : world.cache.get (surroundings.now (world.moment + 1)).toMillis key =
      some text)
    (parsed : (Batch.parse text).toOption = some batch) :
    batch.Proper address ∧ key = Records.key address batch.id ∧
      world.Holds batch := by
  have leads := (Cache.of_mem_keys sound.unique scanned).2
  have isRecord := Records.isKey_of_leads leads
  obtain ⟨entry, member, valued⟩ :=
    (readable.value? sound.unique (Nat.le_succ _) isRecord).1 read
  obtain ⟨sender, found, proper, same, rendered⟩ :=
    (sound.genuine key entry member).record isRecord
  rw [← valued, rendered, Batch.parse_render] at parsed
  cases parsed
  rw [same, Records.leads_key_iff single proper.clean] at leads
  subst leads
  exact ⟨proper, same, key, entry, member, isRecord,
    by rw [rendered, Batch.parse_render]⟩

theorem mem_listed (plain : world.PlainSenders) (single : ':' ∉ address.toList) :
    batch ∈ surroundings.listed world address ↔
      world.Holds batch ∧ batch.address? = some address := by
  simp only [Surroundings.listed, List.mem_filterMap, Option.bind_eq_some_iff]
  constructor
  · intro ⟨key, scanned, text, read, parsed⟩
    obtain ⟨proper, -, held⟩ :=
      sound.found_of_key readable single scanned read parsed
    exact ⟨held, proper.sender⟩
  · intro ⟨held, isSender⟩
    obtain ⟨sender, entry, proper, member, rendered⟩ := sound.holds_iff.1 held
    cases proper.sender.symm.trans isSender
    have isRecord := Records.isKey_key address batch.id
    have find (moment : Nat) (order : world.moment ≤ moment) :=
      (readable.value? sound.unique order isRecord).2 ⟨entry, member, rendered⟩
    refine ⟨_, ?_, batch.render, find _ (Nat.le_succ _), ?_⟩
    · refine (Cache.mem_keys sound.unique ?_).2 ⟨?_, ?_⟩
      · have free := plain address batch.id entry member proper.clean
        simpa [Records.key] using free
      · exact Option.isSome_iff_exists.2 ⟨_, find world.moment (Nat.le_refl _)⟩
      · exact (Records.leads_key_iff single proper.clean).2 rfl
    · rw [Batch.parse_render]
      rfl

theorem pairwise_listed (single : ':' ∉ address.toList) :
    (surroundings.listed world address).Pairwise fun left right =>
      Utf8.encode left.id < Utf8.encode right.id := by
  apply List.pairwise_filterMap.2
  apply (Cache.pairwise_keys sound.unique).imp_of_mem
  intro left right leftScanned rightScanned order batch found other otherFound
  obtain ⟨text, read, parsed⟩ := Option.bind_eq_some_iff.1 found
  obtain ⟨otherText, otherRead, otherParsed⟩ := Option.bind_eq_some_iff.1 otherFound
  obtain ⟨-, isKey, -⟩ :=
    sound.found_of_key readable single leftScanned read parsed
  obtain ⟨-, isOtherKey, -⟩ :=
    sound.found_of_key readable single rightScanned otherRead otherParsed
  rw [isKey, isOtherKey, Records.key, Records.key, Utf8.encode_append,
    Utf8.encode_append] at order
  exact Utf8.lt_of_append_lt_append order

end World.Sound

end BatchRelay
