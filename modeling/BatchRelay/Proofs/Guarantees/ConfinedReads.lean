import BatchRelay.Proofs.Engine.Leftovers
import BatchRelay.Proofs.Engine.RecordReads

/-!
# Reads are confined to their address

After a run, a batch is found under an address and an identifier, or listed
under an address, exactly if it was stored and they are its own.  This relies on
the address to hold no colon, as no sender's address does: identifiers may hold
one, and then a longer address and a shorter identifier make the same key.
-/

namespace BatchRelay

/-- What a client reads under an address after a run: the batches of that
address and no others. -/
structure Run.Confines (run : Run) (address : String) : Prop where
  get : ∀ id, ∃ found,
    (run.surroundings.run (Records.get address id) run.final).1 = .ok found ∧
      ∀ batch, found = some batch ↔ run.final.Holds batch ∧
        batch.address? = some address ∧ batch.id = id
  list : ∃ batches,
    (run.surroundings.run (Records.list address) run.final).1 = .ok batches ∧
      (∀ batch, batch ∈ batches ↔
        run.final.Holds batch ∧ batch.address? = some address) ∧
      batches.Pairwise fun left right =>
        Utf8.encode left.id < Utf8.encode right.id

/-- A read gives the stored batch whose own sender and identifier, joined by a
colon, make the same text.  So it is confined to every address without a
colon. -/
theorem Run.reads_confined (run : Run)
    (readable : run.surroundings.Readable run.final) (address : String) :
    (∀ id, ∃ found,
      (run.surroundings.run (Records.get address id) run.final).1 = .ok found ∧
        ∀ batch, found = some batch ↔ run.final.Holds batch ∧
          ∃ sender, batch.address? = some sender ∧
            sender ++ ":" ++ batch.id = address ++ ":" ++ id) ∧
      (':' ∉ address.toList → run.Confines address) := by
  obtain ⟨sound, plain⟩ := run.sound_final
  refine ⟨?_, ?_⟩
  · intro id
    exact ⟨_, sound.run_get readable, fun batch =>
      sound.stored?_eq_some_iff readable⟩
  · intro single
    exact ⟨fun id => ⟨_, sound.run_get readable, fun batch =>
      sound.stored?_eq_some_iff_of_single readable single⟩,
      ⟨_, readable.run_list, fun batch => sound.mem_listed readable plain single,
        sound.pairwise_listed readable single⟩⟩

/-! ## An identifier with a colon -/

/-- A batch of one transaction that waits. -/
def Batch.single (id : String) (transaction : HashedTransaction) : Batch :=
  ⟨id, [⟨[.waiting transaction]⟩], .pending, none⟩

theorem World.Shows.submit_single {surroundings : Surroundings} {world : World}
    {address id : String} {text? : String → Option String} {ticking : Bool}
    {sendings : List Sending} {transaction : HashedTransaction}
    (shows : world.Shows address id text? ticking sendings)
    (works : ∀ moment access, surroundings.fault moment access = none)
    (named : id ≠ "" ∧ ';' ∉ id.toList) (valid : transaction.Valid address)
    (taken : ∀ moment,
      surroundings.send moment transaction.payload = .ok transaction.hash)
    (absent : text? (Records.key address id) = none) :
    surroundings.stored? (surroundings.run (BatchRelay.submit .forever
        (.ofGroups id [[transaction]]) none) world).2 address id =
      some (.single id transaction) := by
  have passes : (BatchRequest.ofGroups id [[transaction]]).Passes none address
      (.single id transaction) :=
    BatchRequest.passes_ofGroups named (by simp) (by simp) (by simp [valid])
  have isSender : (Batch.single id transaction).address? = some address :=
    congrArg some valid.sender
  have started (opened : World) (moment : opened.moment = world.moment + 1)
      (opens : opened.Shows address id text? ticking sendings) :
      surroundings.Yields (startGroup .forever (.single id transaction) 0) opened
        (.single id transaction) address id
        (fun key => if key = Routes.key transaction.hash then
          some (Route.encode ⟨id, address, surroundings.now (world.moment + 1)⟩)
          else text? key) ticking ((⟨0, 0⟩, .ok transaction.hash) :: sendings) := by
    rw [← moment]
    exact Surroundings.yields_startGroup_taken 0 (.waiting transaction) opens works
      isSender rfl rfl (taken _)
  have ends := shows.submit (.single id transaction) works passes rfl absent started
    rfl (by simp [Batch.single, Batch.invalidHashesAt, Group.invalidHashes,
      Item.waiting])
  exact ends.stored? (by simp)

namespace Sample

/-- A run that stores one batch, whose identifier holds a colon. -/
def colon : Run :=
  ⟨network third, .forever, .memory .empty, Cache.entries_empty,
    [.submit (.ofGroups "x:y" [[first]]) none]⟩

theorem stored?_colon :
    colon.surroundings.stored? colon.final alice "x:y" =
      some (.single "x:y" first) := by
  have taken (moment : Nat) :
      colon.surroundings.send moment first.payload = .ok first.hash :=
    network_takes third first_valid (by simp [first, transfer])
  have ends : colon.final = (colon.surroundings.run
      (submit .forever (.ofGroups "x:y" [[first]]) none) colon.start).2 :=
    @Run.worldAfter_submit colon [] (.ofGroups "x:y" [[first]]) none
  rw [ends]
  exact (colon.shows_start alice "x:y").submit_single (fun _ _ => rfl) (by decide)
    first_valid taken rfl

theorem colon_readable : colon.surroundings.Readable colon.final where
  works _ _ _ := rfl
  lasting moment _ key entry member isRecord := by
    have calm : colon.Calm := Run.calm_of_forever colon (fun _ _ => rfl) rfl
    have isLast : colon.final ∈ colon.worlds :=
      List.mem_append_right _ (List.mem_singleton_self _)
    exact calm.lasting _ isLast key entry member (by simp [isTracked, isRecord])

theorem colon_confines_alice :
    colon.surroundings.Readable colon.final ∧ ':' ∉ alice.toList ∧
      colon.Confines alice :=
  ⟨colon_readable, alice_clean.1,
    (colon.reads_confined colon_readable alice).2 alice_clean.1⟩

/-- Under an address that goes on with a part of the identifier, the batch of
the shorter address is found. -/
theorem colon_not_confined :
    colon.surroundings.Readable colon.final ∧
      ¬colon.Confines (alice ++ ":x") := by
  refine ⟨colon_readable, fun confines => ?_⟩
  have sameKey : Records.key (alice ++ ":x") "y" = Records.key alice "x:y" := by
    simp [Records.key, String.append_assoc]
  have stored : colon.surroundings.stored? colon.final (alice ++ ":x") "y" =
      some (.single "x:y" first) := by
    rw [Surroundings.stored?, sameKey]
    exact stored?_colon
  obtain ⟨found, read, own⟩ := confines.get "y"
  rw [colon.sound_final.1.run_get colon_readable, stored] at read
  cases read
  have named : "x:y" = "y" := ((own _).1 rfl).2.2
  exact absurd named (by decide)

end Sample

end BatchRelay
